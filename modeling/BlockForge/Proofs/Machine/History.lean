import BlockForge.Proofs.Machine.Contents

/-!
# Histories of a memory

A memory answers any requests one after the other. Whatever they were, it stands for the byte arrays of its live
allocations, and it keeps a record of every allocation that it gave out: a number is given to one allocation
only, so that the number of a released allocation is dead from then on.
-/

namespace BlockForge.Machine

/-- What can be asked of a memory. -/
inductive Request where
  | allocate (size : Nat)
  | release (addr : UInt64)
  | write (addr : UInt64) (bytes : Array UInt8)
  | writeWord (addr : UInt64) (size : Nat) (w : UInt64)
  | copy (dst src : UInt64) (len : Nat)

/-- A memory together with the addresses of all allocations that it gave out. -/
structure History where
  memory : Memory := {}
  handed : List UInt64 := []

/-- The memory after an operation, whether it succeeds or fails. -/
def Mem.after (op : Mem Unit) (m : Memory) : Memory :=
  match op m with
  | .ok _ m' => m'
  | .error _ m' => m'

namespace History

def step (h : History) : Request → History
  | .allocate size =>
    match Mem.allocate size h.memory with
    | .ok addr m => ⟨m, addr :: h.handed⟩
    | .error _ m => ⟨m, h.handed⟩
  | .release addr => { h with memory := h.memory.release addr }
  | .write addr bytes => { h with memory := (Mem.write addr bytes).after h.memory }
  | .writeWord addr size w => { h with memory := (Mem.writeWord addr size w).after h.memory }
  | .copy dst src len => { h with memory := (Mem.copy dst src len).after h.memory }

def run (h : History) (requests : List Request) : History := requests.foldl step h

end History

/-! ### What a request changes -/

/-- The allocations of `m'` are allocations of `m`, with other bytes at most; some may have been released. -/
structure Memory.Rewritten (m m' : Memory) : Prop where
  size : m'.blocks.size = m.blocks.size
  live : ∀ (i : Nat) (a' : Allocation), m'.blocks[i]? = some (some a') → ∃ a, m.blocks[i]? = some (some a) ∧ a'.size = a.size

namespace Memory.Rewritten

variable {m : Memory}

theorem refl : Rewritten m m := ⟨rfl, fun _ a h => ⟨a, h, rfl⟩⟩

theorem release (addr : UInt64) : Rewritten m (m.release addr) where
  size := by simp [Memory.release]
  live i a' h := by
    rw [Memory.release, Array.getElem?_setIfInBounds] at h
    by_cases hi : blockIndex addr = i
    · rw [if_pos hi] at h
      split at h <;> cases h
    · rw [if_neg hi] at h
      exact ⟨a', h, rfl⟩

theorem fill (addr : UInt64) (n : Nat) (g : Nat → UInt8) : Rewritten m ((Mem.fill addr n g).after m) := by
  unfold Mem.after Mem.fill
  cases m.locate addr n with
  | error e => exact refl
  | ok a =>
    refine ⟨by simp, ?_⟩
    intro i a' h
    simp only [Array.getElem?_modify] at h
    by_cases hi : blockIndex addr = i
    · rw [if_pos hi] at h
      obtain ⟨slot, hslot, hmap⟩ := Option.map_eq_some_iff.1 h
      obtain ⟨b, rfl, rfl⟩ := Option.map_eq_some_iff.1 hmap
      exact ⟨b, hslot, b.size_fill ..⟩
    · rw [if_neg hi] at h
      exact ⟨a', h, rfl⟩

theorem writeWord (addr : UInt64) (size : Nat) (w : UInt64) :
    Rewritten m ((Mem.writeWord addr size w).after m) := by
  unfold Mem.writeWord
  split
  · exact refl
  · exact fill addr size (wordByte w)

theorem copy (dst src : UInt64) (len : Nat) : Rewritten m ((Mem.copy dst src len).after m) := by
  unfold Mem.copy
  by_cases hlen : len = 0
  · simp only [Mem.after, if_pos hlen]
    exact refl
  · cases hl : m.locate src len with
    | error e =>
      simp only [Mem.after, if_neg hlen, hl]
      exact refl
    | ok a =>
      have h := fill (m := m) dst len fun i => a.byte (blockOffset src + i)
      simp only [Mem.after, if_neg hlen, hl]
      exact h

end Memory.Rewritten

namespace History

variable {h : History}

/-- A request adds a zeroed allocation with the next number, or it rewrites the allocations that there are. -/
theorem step_cases (h : History) (r : Request) :
    (∃ size, size ≤ maxOffset ∧ h.step r =
      ⟨{ h.memory with blocks := h.memory.blocks.push (some { size }) },
        blockAddress h.memory.blocks.size :: h.handed⟩) ∨
    ((h.step r).handed = h.handed ∧ h.memory.Rewritten (h.step r).memory) := by
  cases r with
  | allocate size =>
    by_cases hbig : maxOffset < size
    · right
      have hsame : h.step (.allocate size) = h := by simp only [step, Mem.allocate, if_pos hbig]
      rw [hsame]
      exact ⟨rfl, .refl⟩
    · left
      refine ⟨size, by omega, ?_⟩
      simp only [step, Mem.allocate, if_neg hbig]
  | release addr => exact .inr ⟨rfl, .release addr⟩
  | write addr bytes => exact .inr ⟨rfl, .fill addr _ _⟩
  | writeWord addr size w => exact .inr ⟨rfl, .writeWord addr size w⟩
  | copy dst src len => exact .inr ⟨rfl, .copy dst src len⟩

/-! ### The record -/

/-- A number that was given out and whose allocation is released. -/
def Dead (h : History) (i : Nat) : Prop := h.memory.blocks[i]? = some none

theorem Dead.step {i : Nat} (hd : h.Dead i) (r : Request) : (h.step r).Dead i := by
  obtain ⟨hlt, hi⟩ := Array.getElem?_eq_some_iff.1 hd
  unfold Dead
  obtain ⟨size, -, heq⟩ | ⟨-, hrw⟩ := h.step_cases r
  · rw [heq]
    show (h.memory.blocks.push _)[i]? = _
    rw [Array.getElem?_push_lt hlt, hi]
  · -- the number is still in use, and what is live there now was live before
    cases hb : (h.step r).memory.blocks[i]? with
    | none =>
      have := Array.getElem?_eq_none_iff.1 hb
      rw [hrw.size] at this
      omega
    | some slot =>
      cases slot with
      | none => rfl
      | some a' =>
        obtain ⟨a, ha, -⟩ := hrw.live i a' hb
        rw [hd] at ha
        cases ha

theorem Dead.run {i : Nat} (hd : h.Dead i) (requests : List Request) : (h.run requests).Dead i := by
  induction requests generalizing h with
  | nil => exact hd
  | cons r rest ih => exact ih (hd.step r)

theorem Dead.not_holds {i : Nat} (hd : h.Dead i) {addr : UInt64} (haddr : blockIndex addr = i) (len : Nat) :
    ¬h.memory.contents.Holds addr len := by
  intro hh
  obtain ⟨bytes, hbytes, -⟩ := hh
  obtain ⟨a, ha, -⟩ := Memory.contents_eq_some.1 hbytes
  rw [haddr, hd] at ha
  cases ha

/-- The addresses given out are those of the numbers in use, and no allocation is larger than an offset
reaches. -/
structure Recorded (h : History) : Prop where
  rooted : h.memory.Rooted
  size : h.memory.blocks.size = h.handed.length + 1
  handed : ∀ addr, addr ∈ h.handed ↔ ∃ i, 0 < i ∧ i < h.memory.blocks.size ∧ addr = blockAddress i
  small : ∀ (i : Nat) (a : Allocation), h.memory.blocks[i]? = some (some a) → a.size ≤ maxOffset

theorem recorded_empty : ({} : History).Recorded where
  rooted := rfl
  size := rfl
  handed addr := by
    constructor
    · intro hmem
      cases hmem
    · intro hex
      obtain ⟨i, hpos, hlt, -⟩ := hex
      exact absurd (show i < 1 from hlt) (by omega)
  small i a ha := by
    obtain ⟨hlt, hi⟩ := Array.getElem?_eq_some_iff.1 ha
    obtain rfl : i = 0 := by
      have : i < 1 := hlt
      omega
    cases hi

theorem Recorded.step (hr : h.Recorded) (r : Request) : (h.step r).Recorded := by
  have hrooted : (h.step r).Dead 0 := Dead.step hr.rooted r
  obtain ⟨size, hsize, heq⟩ | ⟨hhanded, hrw⟩ := h.step_cases r
  · rw [heq] at hrooted ⊢
    refine ⟨hrooted, by simp [hr.size], ?_, ?_⟩
    · intro addr
      have hpos : 0 < h.memory.blocks.size := by rw [hr.size]; omega
      simp only [List.mem_cons, hr.handed, Array.size_push]
      constructor
      · intro hmem
        obtain rfl | ⟨i, hi, hlt, rfl⟩ := hmem
        · exact ⟨h.memory.blocks.size, hpos, by omega, rfl⟩
        · exact ⟨i, hi, by omega, rfl⟩
      · intro hex
        obtain ⟨i, hi, hlt, rfl⟩ := hex
        by_cases hnew : i = h.memory.blocks.size
        · exact .inl (by rw [hnew])
        · exact .inr ⟨i, hi, by omega, rfl⟩
    · intro i a ha
      simp only [Array.getElem?_push] at ha
      split at ha
      · cases ha
        exact hsize
      · exact hr.small i a ha
  · refine ⟨hrooted, by rw [hrw.size, hhanded, hr.size], ?_, ?_⟩
    · intro addr
      rw [hhanded, hrw.size, hr.handed]
    · intro i a' ha'
      obtain ⟨a, ha, hsame⟩ := hrw.live i a' ha'
      rw [hsame]
      exact hr.small i a ha

theorem Recorded.run (hr : h.Recorded) (requests : List Request) : (h.run requests).Recorded := by
  induction requests generalizing h with
  | nil => exact hr
  | cons r rest ih => exact ih (hr.step r)

/-! ### The byte arrays -/

/-- The memory of a history stands for the byte arrays of its live allocations. -/
structure Faithful (h : History) : Prop where
  /-- What is live was given out, and its bytes have the addresses that follow the one given out. -/
  live : ∀ i bytes, h.memory.contents i = some bytes → ∃ a ∈ h.handed,
    ∀ k ≤ bytes.length, blockIndex (a + UInt64.ofNat k) = i ∧ blockOffset (a + UInt64.ofNat k) = k
  /-- A new allocation shares its number with no other one, live or released, and is zeroed. -/
  allocate : ∀ size ≤ maxOffset, h.handed.length + 1 < maxBlocks → ∃ addr m,
    Mem.allocate size h.memory = .ok addr m ∧ blockIndex addr ≠ 0 ∧ blockOffset addr = 0 ∧
    (∀ a ∈ h.handed, blockIndex a ≠ blockIndex addr) ∧
    m.contents = Function.update h.memory.contents (blockIndex addr) (some (List.replicate size 0))
  refuse : ∀ size, maxOffset < size → ∃ e, Mem.allocate size h.memory = .error e h.memory
  /-- Bytes can be reached exactly if all of them lie in one live allocation. -/
  reach : ∀ addr len, h.memory.contents.Holds addr len ↔ ∃ a, h.memory.locate addr len = .ok a ∧
    h.memory.contents.slice addr len = (List.range len).map fun i => a.byte (blockOffset addr + i)
  read : ∀ addr size,
    (h.memory.contents.Holds addr size → ∃ v, h.memory.readWord addr size = .ok v ∧
      v.toNat = Nat.ofDigits 256 ((h.memory.contents.slice addr size).map UInt8.toNat) % 2 ^ 64) ∧
    (¬h.memory.contents.Holds addr size → ∃ e, h.memory.readWord addr size = .error e)
  write : ∀ addr bytes, (Mem.write addr bytes).Does h.memory (h.memory.contents.Holds addr bytes.size)
    (h.memory.contents.put addr bytes.toList)
  /-- A word has eight bytes; more are not written. -/
  writeWord : ∀ addr size w, (Mem.writeWord addr size w).Does h.memory
    (size ≤ 8 ∧ h.memory.contents.Holds addr size) (h.memory.contents.put addr (wordBytes w size))
  reread : ∀ addr size w m, size ≤ 8 → Mem.writeWord addr size w h.memory = .ok () m →
    ∃ v, m.readWord addr size = .ok v ∧ v.toNat = w.toNat % 2 ^ (8 * size)
  /-- The target gets what the source held before, however the two overlap. -/
  copy : ∀ dst src len, (Mem.copy dst src len).Does h.memory
    (len = 0 ∨ h.memory.contents.Holds src len ∧ h.memory.contents.Holds dst len)
    (h.memory.contents.put dst (h.memory.contents.slice src len))
  release : ∀ addr,
    (h.memory.release addr).contents = Function.update h.memory.contents (blockIndex addr) none
  /-- Nothing reaches a released allocation again, whatever is asked for later. -/
  released : ∀ addr, (∃ a ∈ h.handed, blockIndex a = blockIndex addr) → ∀ requests other len,
    blockIndex other = blockIndex addr →
    ¬((h.step (.release addr)).run requests).memory.contents.Holds other len

section

variable (hr : h.Recorded) (hmax : h.handed.length < maxBlocks)

include hr hmax

theorem Recorded.blockIndex_handed {addr : UInt64} (ha : addr ∈ h.handed) :
    blockIndex addr < h.memory.blocks.size := by
  obtain ⟨i, -, hlt, rfl⟩ := (hr.handed addr).1 ha
  have hsize := hr.size
  rw [blockIndex_blockAddress (by omega)]
  exact hlt

/-- The bytes of a live allocation have the addresses from the one given out on. -/
theorem Recorded.addresses {i : Nat} {a : Allocation} (hb : h.memory.blocks[i]? = some (some a)) :
    blockAddress i ∈ h.handed ∧ ∀ k ≤ a.size,
      blockIndex (blockAddress i + UInt64.ofNat k) = i ∧ blockOffset (blockAddress i + UInt64.ofNat k) = k := by
  have hlt : i < h.memory.blocks.size := (Array.getElem?_eq_some_iff.1 hb).1
  have hpos : 0 < i := by
    by_contra hzero
    obtain rfl : i = 0 := by omega
    rw [hr.rooted] at hb
    cases hb
  have hsize := hr.size
  have hsmall := hr.small i a hb
  constructor
  · exact (hr.handed _).2 ⟨i, hpos, hlt, rfl⟩
  · intro k hk
    -- a size fits into the lower half of an address, so that the sum does not carry
    have hhalf : maxOffset < maxBlocks := by decide
    have hkmax : k < maxBlocks := by omega
    rw [← addressOf]
    exact ⟨blockIndex_addressOf (by omega) hkmax, blockOffset_addressOf (by omega) hkmax⟩

theorem Recorded.faithful : h.Faithful where
  live i bytes hi := by
    obtain ⟨a, hb, rfl⟩ := Memory.contents_eq_some.1 hi
    obtain ⟨hmem, haddr⟩ := hr.addresses hmax hb
    rw [a.length_bytes]
    exact ⟨blockAddress i, hmem, haddr⟩
  allocate size hsize hroom := by
    have hnext : h.memory.blocks.size < maxBlocks := by
      rw [hr.size]
      exact hroom
    refine ⟨blockAddress h.memory.blocks.size, _, by rw [Mem.allocate, if_neg (by omega)], ?_⟩
    rw [blockIndex_blockAddress hnext, Memory.contents_push]
    refine ⟨by rw [hr.size]; omega, ?_, ?_, rfl⟩
    · rw [← addressOf_zero]
      exact blockOffset_addressOf hnext (by decide)
    · intro a ha
      exact (hr.blockIndex_handed hmax ha).ne
  refuse size hsize := ⟨_, by rw [Mem.allocate, if_pos hsize]⟩
  reach addr len := by
    rw [hr.rooted.holds_iff]
    constructor
    · intro hex
      obtain ⟨a, ha⟩ := hex
      refine ⟨a, ha, ?_⟩
      rw [Contents.slice, Memory.contents_of_locate ha, Option.getD_some,
        a.take_drop_bytes (Memory.locate_eq_ok.1 ha).2.2]
    · intro hex
      obtain ⟨a, ha, -⟩ := hex
      exact ⟨a, ha⟩
  read := read_does hr.rooted
  write := write_does hr.rooted
  writeWord := writeWord_does hr.rooted
  reread _ _ _ _ hsize hok := readWord_writeWord hsize hok
  copy := copy_does hr.rooted
  release := h.memory.contents_release
  released addr hex requests other len hother := by
    obtain ⟨a, ha, haddr⟩ := hex
    have hlt : blockIndex addr < h.memory.blocks.size := by
      rw [← haddr]
      exact hr.blockIndex_handed hmax ha
    have hdead : (h.step (.release addr)).Dead (blockIndex addr) := by
      show (h.memory.blocks.setIfInBounds (blockIndex addr) none)[blockIndex addr]? = _
      rw [Array.getElem?_setIfInBounds, if_pos rfl, if_pos hlt]
    exact (hdead.run requests).not_holds hother len

end

end History

/-- As long as addresses can tell the allocations apart, a memory is faithful after any requests. -/
theorem memory_is_faithful (requests : List Request)
    (hmax : (History.run {} requests).handed.length < maxBlocks) : (History.run {} requests).Faithful :=
  (History.recorded_empty.run requests).faithful hmax

/-- Bytes are moved up by one within their allocation; another one is released, and asked for again. -/
theorem memory_is_faithful_moved :
    let requests : List Request := [.allocate 5, .allocate 2, .write (blockAddress 1) #[1, 2, 3, 4, 0],
      .copy (blockAddress 1 + 1) (blockAddress 1) 4, .release (blockAddress 2), .writeWord (blockAddress 2) 2 7]
    (History.run {} requests).handed.length < maxBlocks ∧ (History.run {} requests).Faithful :=
  ⟨by decide +kernel, memory_is_faithful _ (by decide +kernel)⟩

example : (History.run {} [.allocate 5, .write (blockAddress 1) #[1, 2, 3, 4, 0],
    .copy (blockAddress 1 + 1) (blockAddress 1) 4]).memory.contents.slice (blockAddress 1) 5 = [1, 1, 2, 3, 4] := by
  decide +kernel

/-- Sixteen bytes that lie in a live allocation cannot be written as one word. -/
theorem wide_words_are_refused :
    let h := History.run {} [.allocate 16]
    h.handed.length < maxBlocks ∧ h.memory.contents.Holds (blockAddress 1) 16 ∧
      ¬∃ m, Mem.writeWord (blockAddress 1) 16 5 h.memory = .ok () m := by
  refine ⟨by decide +kernel, ⟨List.replicate 16 0, by decide +kernel, by decide +kernel⟩, ?_⟩
  intro hex
  obtain ⟨m, hm⟩ := hex
  cases hm

end BlockForge.Machine
