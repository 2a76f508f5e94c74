import BlockForge.Machine.Fault
import BlockForge.Text.Utf8

/-!
# Memory

A table of allocations. An address is the number of an allocation in its high half and a byte offset
in its low half; number zero is never allocated, so the null address points nowhere. Allocations
start out zeroed, numbers are never reused, and a released allocation stays inaccessible.
-/

namespace BlockForge.Machine

/-- The greatest size of an allocation, and the mask of an offset. -/
def maxOffset : Nat := 0xffffffff

/-- Changes the entry at a position, filling up with `z` if the array ends before it. -/
@[inline] def updateAt {α : Type} (z : α) (xs : Array α) (i : Nat) (f : α → α) : Array α :=
  if i < xs.size then xs.modify i f else (xs ++ Array.replicate (i - xs.size) z).push (f z)

theorem getD_updateAt {α : Type} (z : α) (xs : Array α) (i : Nat) (f : α → α) (j : Nat) :
    (updateAt z xs i f).getD j z = if j = i then f (xs.getD i z) else xs.getD j z := by
  simp only [updateAt, Array.getD_eq_getD_getElem?]
  split
  · rename_i hlt
    rw [Array.getElem?_modify]
    by_cases hj : j = i
    · rw [if_pos hj.symm, if_pos hj, hj, Array.getElem?_eq_getElem hlt]
      rfl
    · rw [if_neg (Ne.symm hj), if_neg hj]
  · simp only [Array.getElem?_push, Array.size_append, Array.size_replicate,
      Array.getElem?_append, Array.getElem?_replicate]
    by_cases hj : j = i
    · rw [if_pos (by omega), if_pos hj, Array.getElem?_eq_none (by omega)]
      rfl
    · rw [if_neg (by omega), if_neg hj]
      by_cases hs : j < xs.size
      · rw [if_pos hs]
      · have hnone : xs[j]? = none := Array.getElem?_eq_none (by omega)
        rw [if_neg hs, hnone]
        split <;> rfl

/-- How many bytes a page holds. -/
def pageSize : Nat := 4096

/-- A live allocation. Its bytes lie in pages; what was never written is not stored and is zero. -/
structure Allocation where
  size : Nat
  pages : Array (Array UInt8) := #[]
  deriving Repr, Inhabited

namespace Allocation

def byte (a : Allocation) (offset : Nat) : UInt8 :=
  (a.pages.getD (offset / pageSize) #[]).getD (offset % pageSize) 0

def setByte (a : Allocation) (offset : Nat) (b : UInt8) : Allocation :=
  { a with pages := updateAt #[] a.pages (offset / pageSize) fun page =>
      updateAt 0 page (offset % pageSize) fun _ => b }

/-- Stores the bytes `g 0`, `g 1`, … `g (n - 1)` from an offset on. -/
@[specialize] def fill (a : Allocation) (start n : Nat) (g : Nat → UInt8) : Allocation :=
  n.fold (fun i _ a => a.setByte (start + i) (g i)) a

/-- The integer of `n` bytes from an offset on, lowest byte first. -/
def word (a : Allocation) (offset : Nat) : (n : Nat) → UInt64
  | 0 => 0
  | n + 1 => (a.word (offset + 1) n <<< 8) ||| (a.byte offset).toUInt64

@[simp] theorem size_setByte (a : Allocation) (offset : Nat) (b : UInt8) :
    (a.setByte offset b).size = a.size := rfl

/-- Storing a byte changes that byte and no other. -/
theorem byte_setByte (a : Allocation) (offset : Nat) (b : UInt8) (i : Nat) :
    (a.setByte offset b).byte i = if i = offset then b else a.byte i := by
  simp only [byte, setByte, getD_updateAt]
  by_cases hpage : i / pageSize = offset / pageSize
  · rw [if_pos hpage, getD_updateAt]
    by_cases hi : i = offset
    · rw [if_pos hi, if_pos (by rw [hi])]
    · have hne : i % pageSize ≠ offset % pageSize := by
        intro h
        apply hi
        rw [← Nat.div_add_mod i pageSize, ← Nat.div_add_mod offset pageSize, hpage, h]
      rw [if_neg hi, if_neg hne, hpage]
  · rw [if_neg hpage, if_neg (fun h => hpage (by rw [h]))]

@[simp] theorem size_fill (a : Allocation) (start n : Nat) (g : Nat → UInt8) :
    (a.fill start n g).size = a.size := by
  unfold fill
  induction n with
  | zero => rfl
  | succ n ih => rw [Nat.fold_succ, size_setByte, ih]

/-- Storing bytes changes those of its range and no other. -/
theorem byte_fill (a : Allocation) (start n : Nat) (g : Nat → UInt8) (i : Nat) :
    (a.fill start n g).byte i =
      if start ≤ i ∧ i < start + n then g (i - start) else a.byte i := by
  unfold fill
  induction n with
  | zero => exact (if_neg (by omega)).symm
  | succ n ih =>
    rw [Nat.fold_succ, byte_setByte, ih]
    by_cases hi : i = start + n
    · rw [if_pos hi, if_pos (by omega), hi, Nat.add_sub_cancel_left]
    · rw [if_neg hi]
      by_cases hr : start ≤ i ∧ i < start + n
      · rw [if_pos hr, if_pos (by omega)]
      · rw [if_neg hr, if_neg (by omega)]

end Allocation

/-- The allocations by number; `none` for number zero and for released ones. -/
structure Memory where
  blocks : Array (Option Allocation) := #[none]
  deriving Inhabited

/-- The number of the allocation that an address points into. -/
def blockIndex (addr : UInt64) : Nat := (addr >>> 32).toNat

/-- The offset of an address in its allocation. -/
def blockOffset (addr : UInt64) : Nat := (addr &&& 0xffffffff).toNat

/-- The first address of an allocation. -/
def blockAddress (index : Nat) : UInt64 := UInt64.ofNat index <<< 32

/-- The byte of a word at a position, counted from the lowest. -/
def wordByte (w : UInt64) (position : Nat) : UInt8 := (w >>> UInt64.ofNat (8 * position)).toUInt8

/-! ### Reading -/

namespace Memory

def liveAllocations (m : Memory) : Nat := m.blocks.countP (·.isSome)

/-- The allocation that holds all of `len` bytes from an address on. -/
def locate (m : Memory) (addr : UInt64) (len : Nat) : Except Fault Allocation :=
  if blockIndex addr = 0 then .error .nullDereference
  else
    match m.blocks[blockIndex addr]? with
    | some (some a) =>
      if blockOffset addr + len ≤ a.size then .ok a else .error (.invalidAccess addr len)
    | _ => .error (.invalidAccess addr len)

/-- Reads an integer of `size` bytes. -/
def readWord (m : Memory) (addr : UInt64) (size : Nat) : Except Fault UInt64 :=
  (m.locate addr size).map fun a => a.word (blockOffset addr) size

/-- Collects the bytes before the first zero byte, in reverse. An allocation ends before an offset
repeats, so `maxOffset + 1` steps always reach a zero byte or the end. -/
def scanText (m : Memory) : (steps : Nat) → UInt64 → List UInt8 → Except Fault (List UInt8)
  | 0, _, seen => .ok seen
  | steps + 1, addr, seen =>
    match m.locate addr 1 with
    | .error e => .error e
    | .ok a =>
      let b := a.byte (blockOffset addr)
      if b = 0 then .ok seen else scanText m steps (addr + 1) (b :: seen)

/-- The text from an address up to its first zero byte. -/
def readText (m : Memory) (addr : UInt64) : Except Fault String :=
  (m.scanText (maxOffset + 1) addr []).map fun bytes =>
    String.ofList (Text.decodeLossy bytes.reverse)

/-- Takes the allocation of an address away. -/
def release (m : Memory) (addr : UInt64) : Memory :=
  { m with blocks := m.blocks.setIfInBounds (blockIndex addr) none }

/-- Takes the allocations of some addresses away. -/
def releaseAll (m : Memory) (addrs : List UInt64) : Memory := addrs.foldl release m

end Memory

/-! ### Changing -/

/-- Gives a result or a fault without changing the state. -/
def checked {σ α : Type} : Except Fault α → EStateM Fault σ α
  | .ok a => pure a
  | .error e => throw e

/-- An operation on memory. One that fails leaves the memory as it was. -/
abbrev Mem := EStateM Fault Memory

namespace Mem

/-- Adds a zeroed allocation and gives its address. -/
def allocate (size : Nat) : Mem UInt64 := fun m =>
  if maxOffset < size then .error (.allocationTooLarge size) m
  else .ok (blockAddress m.blocks.size) { m with blocks := m.blocks.push (some { size }) }

/-- Overwrites `n` bytes within one allocation. -/
@[specialize] def fill (addr : UInt64) (n : Nat) (g : Nat → UInt8) : Mem Unit := fun m =>
  match m.locate addr n with
  | .error e => .error e m
  | .ok _ =>
    let update : Option Allocation → Option Allocation :=
      Option.map fun a => a.fill (blockOffset addr) n g
    .ok () { m with blocks := m.blocks.modify (blockIndex addr) update }

def write (addr : UInt64) (bytes : Array UInt8) : Mem Unit :=
  fill addr bytes.size fun i => bytes.getD i 0

/-- Writes the low `size` bytes of a word; a word has no more than eight. -/
def writeWord (addr : UInt64) (size : Nat) (w : UInt64) : Mem Unit :=
  if 8 < size then throw (.invalidAccess addr size) else fill addr size (wordByte w)

/-- Copies bytes. The source is read as it was before, so the ranges may overlap; copying nothing
always succeeds. -/
def copy (dst src : UInt64) (len : Nat) : Mem Unit := fun m =>
  if len = 0 then .ok () m
  else
    match m.locate src len with
    | .error e => .error e m
    | .ok a => fill dst len (fun i => a.byte (blockOffset src + i)) m

end Mem

end BlockForge.Machine
