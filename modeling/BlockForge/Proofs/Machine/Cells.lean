import BlockForge.Proofs.Machine.Slots

/-!
# Typed cells

An allocation as the values that can be read from it: what a read at a type gives after a write, a copy, or
a write elsewhere. A store, a load and a copy of the machine that stay within live allocations are such
reads and writes.
-/

namespace BlockForge.Machine

open Ir (Module Ty)

/-! ### Values in bytes -/

/-- The bytes that a value of a type takes. -/
def cellBytes : Ty → Nat
  | .i1 | .i8 => 1
  | .i16 => 2
  | .i32 | .f32 => 4
  | .i64 | .f64 | .ptr => 8
  | .void | .struct _ => 0

theorem sizeOf_eq_cellBytes {m : Module} (hm : m.pointerBits = 64) {t : Ty} (ht : t.isScalar = true) :
    m.sizeOf t = cellBytes t := by
  cases t with
  | ptr => simp [Module.sizeOf_of_plain, Module.plainLayout, hm, cellBytes]
  | void | struct => simp [Ty.isScalar, Ty.isInt, Ty.intBits?, Ty.isFloat, Ty.isPtr] at ht
  | _ => rfl

theorem sized_of_isScalar {m : Module} {t : Ty} (ht : t.isScalar = true) : m.Sized t := by
  cases t with
  | struct => simp [Ty.isScalar, Ty.isInt, Ty.intBits?, Ty.isFloat, Ty.isPtr] at ht
  | _ => rfl

theorem cellBytes_pos {t : Ty} (ht : t.isScalar = true) : 0 < cellBytes t := by
  cases t <;> simp [Ty.isScalar, Ty.isInt, Ty.intBits?, Ty.isFloat, Ty.isPtr, cellBytes] at ht ⊢

theorem cellBytes_le (t : Ty) : cellBytes t ≤ 8 := by cases t <;> simp [cellBytes]

/-- The values that are stored at a type. -/
def Val.Of (t : Ty) : Val → Prop
  | .int _ => t.isInt = true
  | .float _ => t.isFloat = true
  | .ptr _ => t = .ptr

/-- What is read back of a value stored at a type. -/
def Val.kept (t : Ty) : Val → Val
  | .int w => .int (Word.mask w (t.intBits?.getD 64))
  | .float bits => .float (if t = .f32 then Binary64.ofSingleBits (Binary64.toSingleBits bits) else bits)
  | .ptr a => .ptr a

namespace Allocation

/-- The value at an offset, read at a type. -/
def read (a : Allocation) (t : Ty) (offset : Nat) : Val :=
  match t with
  | .i1 => .int (a.word offset 1 &&& 1)
  | .i8 | .i16 | .i32 | .i64 => .int (a.word offset (cellBytes t))
  | .f32 => .float (Binary64.ofSingleBits (a.word offset 4).toUInt32)
  | .f64 => .float (a.word offset 8)
  | _ => .ptr (a.word offset 8)

/-- The word that a value is stored as. -/
def stored (t : Ty) : Val → UInt64
  | .int w | .ptr w => w
  | .float bits => if t = .f32 then (Binary64.toSingleBits bits).toUInt64 else bits

/-- The allocation with a value written at an offset. -/
def write (a : Allocation) (t : Ty) (offset : Nat) (x : Val) : Allocation :=
  a.fill offset (cellBytes t) (wordByte (stored t x))

@[simp] theorem size_write (a : Allocation) (t : Ty) (offset : Nat) (x : Val) :
    (a.write t offset x).size = a.size := size_fill ..

theorem word_congr {a b : Allocation} {i j n : Nat} (h : ∀ k < n, a.byte (i + k) = b.byte (j + k)) :
    a.word i n = b.word j n := by
  induction n generalizing i j with
  | zero => rfl
  | succ n ih =>
    have hrest : a.word (i + 1) n = b.word (j + 1) n := by
      refine ih fun k hk => ?_
      have := h (k + 1) (by omega)
      rwa [show i + 1 + k = i + (k + 1) by omega, show j + 1 + k = j + (k + 1) by omega]
    have hfirst : a.byte i = b.byte j := h 0 (by omega)
    rw [word, word, hrest, hfirst]

/-- A read depends on the bytes of the cell only. -/
theorem read_congr {a b : Allocation} {t : Ty} {i j : Nat} (ht : t.isScalar = true)
    (h : ∀ k < cellBytes t, a.byte (i + k) = b.byte (j + k)) : a.read t i = b.read t j := by
  have hw := word_congr h
  cases t with
  | void | struct => simp [Ty.isScalar, Ty.isInt, Ty.intBits?, Ty.isFloat, Ty.isPtr] at ht
  | _ =>
    simp only [cellBytes] at hw
    simp only [read, cellBytes, hw]

/-- A read beside the bytes that were filled. -/
theorem read_fill_apart {a : Allocation} {t : Ty} (ht : t.isScalar = true) {start n offset : Nat}
    {g : Nat → UInt8} (h : offset + cellBytes t ≤ start ∨ start + n ≤ offset) :
    (a.fill start n g).read t offset = a.read t offset := by
  refine read_congr ht fun k hk => ?_
  rw [byte_fill, if_neg]
  omega

theorem read_write_apart {a : Allocation} {t u : Ty} (ht : t.isScalar = true) {offset i : Nat} {x : Val}
    (h : offset + cellBytes t ≤ i ∨ i + cellBytes u ≤ offset) :
    (a.write u i x).read t offset = a.read t offset := read_fill_apart ht h

/-- A read among bytes that were copied. -/
theorem read_copy {a b : Allocation} {t : Ty} (dst src : Nat) (ht : t.isScalar = true) {n k : Nat}
    (h : k + cellBytes t ≤ n) :
    (a.fill dst n fun i => b.byte (src + i)).read t (dst + k) = b.read t (src + k) := by
  refine read_congr ht fun j hj => ?_
  rw [byte_fill, if_pos (by omega)]
  exact congrArg b.byte (by omega)

theorem toNat_word_write (a : Allocation) (t : Ty) (offset : Nat) (x : Val) :
    ((a.write t offset x).word offset (cellBytes t)).toNat = (stored t x).toNat % 2 ^ (8 * cellBytes t) := by
  have hbytes : ((a.write t offset x).word offset (cellBytes t)).toNat =
      (stored t x).toNat / 2 ^ (8 * 0) % 2 ^ (8 * cellBytes t) := by
    refine toNat_word_of_bytes ?_ fun k hk => ?_
    · have := cellBytes_le t
      omega
    · rw [write, byte_fill, if_pos (by omega)]
      congr 1
      omega
  simpa using hbytes

/-- A value is read back as it is kept. -/
theorem read_write_self (a : Allocation) {t : Ty} (offset : Nat) {x : Val} (hx : x.Of t) :
    (a.write t offset x).read t offset = x.kept t := by
  have hword := a.toNat_word_write t offset x
  have hmask : ∀ {w : UInt64} {bits : Nat}, t.intBits? = some bits → bits = 8 * cellBytes t →
      stored t x = w → (a.write t offset x).word offset (cellBytes t) = Word.mask w bits := by
    intro w bits hb hc hs
    refine UInt64.toNat_inj.1 ?_
    rw [hword, hs, Word.toNat_mask (Ir.Emit.intBits?_le hb), hc]
  have hwhole : ∀ {w : UInt64}, cellBytes t = 8 → stored t x = w →
      (a.write t offset x).word offset 8 = w := by
    intro w hc hs
    refine UInt64.toNat_inj.1 ?_
    rw [hc, hs] at hword
    rw [hword]
    exact Nat.mod_eq_of_lt w.toNat_lt
  cases x with
  | int w =>
    cases t with
    | i1 =>
      refine congrArg Val.int (UInt64.toNat_inj.1 ?_)
      show ((a.write .i1 offset (.int w)).word offset (cellBytes .i1) &&& 1).toNat =
        (Word.mask w 1).toNat
      rw [UInt64.toNat_and, hword, Word.toNat_mask (by decide), show (1 : UInt64).toNat = 2 ^ 1 - 1 from rfl,
        Nat.and_two_pow_sub_one_eq_mod]
      exact Nat.mod_mod_of_dvd _ (by decide)
    | i8 | i16 | i32 | i64 => exact congrArg Val.int (hmask rfl rfl rfl)
    | _ => simp [Val.Of, Ty.isInt, Ty.intBits?] at hx
  | float bits =>
    cases t with
    | f32 =>
      refine congrArg Val.float ?_
      show Binary64.ofSingleBits ((a.write .f32 offset (.float bits)).word offset (cellBytes .f32)).toUInt32 =
        Binary64.ofSingleBits (Binary64.toSingleBits bits)
      congr 1
      refine UInt32.toNat_inj.1 ?_
      rw [UInt64.toNat_toUInt32, hword]
      simp only [stored, if_true, UInt32.toNat_toUInt64]
      have := (Binary64.toSingleBits bits).toNat_lt
      show (Binary64.toSingleBits bits).toNat % 2 ^ 32 % 2 ^ 32 = _
      omega
    | f64 => exact congrArg Val.float (hwhole rfl rfl)
    | _ => simp [Val.Of, Ty.isFloat] at hx
  | ptr addr =>
    obtain rfl : t = .ptr := hx
    exact congrArg Val.ptr (hwhole rfl rfl)

end Allocation

/-! ### Live allocations -/

namespace Memory

/-- The memory with another allocation in the place of one. -/
def set (mem : Memory) (i : Nat) (a : Allocation) : Memory :=
  { mem with blocks := mem.blocks.setIfInBounds i (some a) }

@[simp] theorem size_set (mem : Memory) (i : Nat) (a : Allocation) :
    (mem.set i a).blocks.size = mem.blocks.size := by simp [set]

theorem set_ne {mem : Memory} {i j : Nat} (a : Allocation) (h : i ≠ j) :
    (mem.set i a).blocks[j]? = mem.blocks[j]? := Array.getElem?_setIfInBounds_ne h

/-- The memory with one more allocation. -/
def push (mem : Memory) (a : Allocation) : Memory := { mem with blocks := mem.blocks.push (some a) }

@[simp] theorem size_push (mem : Memory) (a : Allocation) :
    (mem.push a).blocks.size = mem.blocks.size + 1 := by simp [push]

theorem push_lt {mem : Memory} {j : Nat} (a : Allocation) (h : j < mem.blocks.size) :
    (mem.push a).blocks[j]? = mem.blocks[j]? := by
  simp [push, Array.getElem?_push, Nat.ne_of_lt h]

theorem push_self (mem : Memory) (a : Allocation) : (mem.push a).blocks[mem.blocks.size]? = some (some a) := by
  simp [push]

end Memory

/-- An allocation that can be reached by its addresses. -/
structure Live (mem : Memory) (i : Nat) (a : Allocation) : Prop where
  pos : 0 < i
  lt : i < maxBlocks
  found : mem.blocks[i]? = some (some a)
  small : a.size ≤ maxOffset

namespace Live

variable {mem : Memory} {i j : Nat} {a b : Allocation}

theorem lt_size (h : Live mem i a) : i < mem.blocks.size := (Array.getElem?_eq_some_iff.1 h.found).1

theorem unique (h : Live mem i a) (k : Live mem i b) : a = b := by
  have := h.found.symm.trans k.found
  simpa using this

/-- An allocation depends on its own entry only. -/
theorem of_eq {mem' : Memory} (h : Live mem i a) (he : mem'.blocks[i]? = mem.blocks[i]?) : Live mem' i a :=
  ⟨h.pos, h.lt, he.trans h.found, h.small⟩

theorem set_self (h : Live mem i a) (hb : b.size = a.size) : Live (mem.set i b) i b :=
  ⟨h.pos, h.lt, Array.getElem?_setIfInBounds_self_of_lt h.lt_size, hb ▸ h.small⟩

theorem set_ne (h : Live mem i a) (hne : j ≠ i) : Live (mem.set j b) i a := h.of_eq (Memory.set_ne b hne)

theorem blockIndex_eq (h : Live mem i a) {offset n : Nat} (ho : offset + n ≤ a.size) :
    blockIndex (addressOf i offset) = i :=
  blockIndex_addressOf h.lt (Nat.lt_of_le_of_lt (Nat.le_trans (Nat.le_add_right ..) (Nat.le_trans ho h.small))
    (by decide))

theorem blockOffset_eq (h : Live mem i a) {offset n : Nat} (ho : offset + n ≤ a.size) :
    blockOffset (addressOf i offset) = offset :=
  blockOffset_addressOf h.lt (Nat.lt_of_le_of_lt (Nat.le_trans (Nat.le_add_right ..) (Nat.le_trans ho h.small))
    (by decide))

theorem locate_eq (h : Live mem i a) {offset n : Nat} (ho : offset + n ≤ a.size) :
    mem.locate (addressOf i offset) n = .ok a := by
  rw [Memory.locate, h.blockIndex_eq ho, h.blockOffset_eq ho, if_neg h.pos.ne', h.found]
  exact if_pos ho

theorem fill_eq (h : Live mem i a) {offset n : Nat} (ho : offset + n ≤ a.size) (g : Nat → UInt8) :
    Mem.fill (addressOf i offset) n g mem = .ok () (mem.set i (a.fill offset n g)) := by
  rw [Mem.fill, h.locate_eq ho, h.blockIndex_eq ho, h.blockOffset_eq ho]
  show EStateM.Result.ok () _ = _
  congr 1
  have hlt := h.lt_size
  have hget : mem.blocks[i] = some a := (Array.getElem?_eq_some_iff.1 h.found).2
  simp only [Memory.set]
  congr 1
  refine Array.ext (by simp) fun k hk₁ hk₂ => ?_
  rw [Array.getElem_modify, Array.getElem_setIfInBounds]
  split
  · rename_i hik
    subst hik
    rw [hget]
    rfl
  · rfl

theorem load_eq {m : Module} (hm : m.pointerBits = 64) (h : Live mem i a) {t : Ty} (ht : t.isScalar = true)
    {offset : Nat} (ho : offset + cellBytes t ≤ a.size) :
    mem.load m t (addressOf i offset) = .ok (a.read t offset) := by
  have hread : mem.readWord (addressOf i offset) (cellBytes t) = .ok (a.word offset (cellBytes t)) := by
    rw [Memory.readWord, h.locate_eq ho, h.blockOffset_eq ho]
    rfl
  have hs := sizeOf_eq_cellBytes hm ht
  cases t with
  | void | struct => simp [Ty.isScalar, Ty.isInt, Ty.intBits?, Ty.isFloat, Ty.isPtr] at ht
  | i1 | f32 | f64 =>
    simp only [cellBytes] at hread
    simp only [Memory.load, hread]
    rfl
  | _ =>
    simp only [Memory.load, hs, hread]
    rfl

theorem store_eq {m : Module} (hm : m.pointerBits = 64) (h : Live mem i a) {t : Ty} {x : Val} (hx : x.Of t)
    {offset : Nat} (ho : offset + cellBytes t ≤ a.size) :
    Mem.store m t (addressOf i offset) x mem = .ok () (mem.set i (a.write t offset x)) := by
  have hle := cellBytes_le t
  have hwrite : ∀ w, Mem.writeWord (addressOf i offset) (cellBytes t) w mem =
      .ok () (mem.set i (a.fill offset (cellBytes t) (wordByte w))) := by
    intro w
    rw [Mem.writeWord, if_neg (by omega)]
    exact h.fill_eq ho _
  have hscalar : t.isScalar = true := by
    cases x with
    | int w => simp [Ty.isScalar, show t.isInt = true from hx]
    | float bits => simp [Ty.isScalar, show t.isFloat = true from hx]
    | ptr addr =>
      obtain rfl : t = .ptr := hx
      rfl
  have hs := sizeOf_eq_cellBytes hm hscalar
  have hpos := cellBytes_pos hscalar
  cases x with
  | int w =>
    cases t <;> simp only [Val.Of, Ty.isInt, Ty.intBits?, Option.isSome, reduceCtorEq] at hx
    all_goals
      simp only [Mem.store, storeWord_eq (sized_of_isScalar hscalar) (hs ▸ hpos), hs]
      exact hwrite w
  | float bits =>
    cases t <;> simp only [Val.Of, Ty.isFloat, reduceCtorEq] at hx
    all_goals exact hwrite _
  | ptr addr =>
    obtain rfl : t = .ptr := hx
    simp only [Mem.store, storeWord_eq (sized_of_isScalar hscalar) (hs ▸ hpos), hs]
    exact hwrite addr

/-- Bytes are copied from one allocation to another, or within one. -/
theorem copy_eq (h : Live mem i a) (k : Live mem j b) {src dst n : Nat} (hs : src + n ≤ a.size)
    (hd : dst + n ≤ b.size) (hn : 0 < n) :
    Mem.copy (addressOf j dst) (addressOf i src) n mem =
      .ok () (mem.set j (b.fill dst n fun x => a.byte (src + x))) := by
  rw [Mem.copy, if_neg hn.ne', h.locate_eq hs, h.blockOffset_eq hs]
  exact k.fill_eq hd _

end Live

/-- A new allocation is zeroed, and the others stay. -/
theorem allocate_eq {mem : Memory} {n : Nat} (hn : n ≤ maxOffset) :
    Mem.allocate n mem = .ok (blockAddress mem.blocks.size) (mem.push { size := n }) := by
  rw [Mem.allocate, if_neg (by omega)]
  rfl

theorem allocate_too_large {mem : Memory} {n : Nat} (hn : maxOffset < n) :
    Mem.allocate n mem = .error (.allocationTooLarge n) mem := by
  rw [Mem.allocate, if_pos hn]

end BlockForge.Machine
