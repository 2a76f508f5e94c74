import BlockForge.Proofs.Machine.Addresses
import BlockForge.Proofs.Machine.Entry
import BlockForge.Proofs.Machine.Kinds
import BlockForge.Proofs.Numeric.Words

/-!
# Integers in stack slots

The stack slots of a function that runs are allocations of their own. A slot keeps the integer that was stored
there last, whatever is stored in the others.
-/

namespace BlockForge.Machine

open Ir (Builder Inst Module Ty ValueId)

/-! ### Words at the start of an allocation -/

theorem toNat_wordByte (w : UInt64) {k : Nat} (hk : k < 8) :
    (wordByte w k).toNat = w.toNat / 2 ^ (8 * k) % 2 ^ 8 := by
  have hshift : (UInt64.ofNat (8 * k)).toNat % 64 = 8 * k := by
    rw [UInt64.toNat_ofNat_of_lt' (by show 8 * k < 2 ^ 64; omega)]
    omega
  rw [wordByte, UInt64.toNat_toUInt8, UInt64.toNat_shiftRight, hshift, Nat.shiftRight_eq_div_pow]

/-- Bytes that come from a word, from its `s`-th byte on, make up that part of the word. -/
theorem Allocation.toNat_word_of_bytes {a : Allocation} {offset n s : Nat} {w : UInt64} (hn : s + n ≤ 8)
    (h : ∀ k < n, a.byte (offset + k) = wordByte w (s + k)) :
    (a.word offset n).toNat = w.toNat / 2 ^ (8 * s) % 2 ^ (8 * n) := by
  induction n generalizing offset s with
  | zero => simp [word, Nat.mod_one]
  | succ n ih =>
    have hrest : (a.word (offset + 1) n).toNat = w.toNat / 2 ^ (8 * (s + 1)) % 2 ^ (8 * n) := by
      refine ih (by omega) fun k hk => ?_
      have := h (k + 1) (by omega)
      rwa [show offset + 1 + k = offset + (k + 1) by omega, show s + 1 + k = s + (k + 1) by omega]
    have hbyte : (a.byte offset).toNat = w.toNat / 2 ^ (8 * s) % 2 ^ 8 := by
      have := h 0 (by omega)
      rw [Nat.add_zero, Nat.add_zero] at this
      rw [this, toNat_wordByte w (by omega)]
    rw [a.toNat_word_succ offset (by omega) (a.toNat_word_lt _ (by omega)), hrest, hbyte,
      show 8 * (s + 1) = 8 * s + 8 by omega, show 8 * (n + 1) = 8 + 8 * n by omega, Nat.pow_add, Nat.pow_add,
      ← Nat.div_div_eq_div_mul, Nat.mod_mul]
    ring

/-- The low bytes of a word that was written. -/
theorem Allocation.word_fill (a : Allocation) {n : Nat} (hn : n ≤ 8) (w : UInt64) :
    (a.fill 0 n (wordByte w)).word 0 n = Word.mask w (8 * n) := by
  refine UInt64.toNat_inj.1 ?_
  rw [Word.toNat_mask (by omega), toNat_word_of_bytes (s := 0) (w := w) (by omega)]
  · simp
  · intro k hk
    rw [byte_fill, if_pos (by omega)]
    congr 1

/-- Integers of at least eight bits take as many bits of memory as they have. -/
theorem sizeOf_int {m : Module} {t : Ty} {bits : Nat} (ht : t.intBits? = some bits) (hbits : 8 ≤ bits) :
    8 * m.sizeOf t = bits := by
  cases t <;> cases ht <;> first | rfl | omega

section

variable {m : Module} {mem mem' : Memory} {i : Nat}

/-- A load depends on the allocation of its address only. -/
theorem load_congr (hi : i < maxBlocks) (h : mem'.blocks[i]? = mem.blocks[i]?) (t : Ty) :
    mem'.load m t (blockAddress i) = mem.load m t (blockAddress i) := by
  have hread : ∀ n, mem'.readWord (blockAddress i) n = mem.readWord (blockAddress i) n := by
    intro n
    unfold Memory.readWord Memory.locate
    rw [blockIndex_blockAddress hi, h]
  cases t <;> simp only [Memory.load, hread]

theorem locate_block (hpos : 0 < i) (hi : i < maxBlocks) {a : Allocation} (ha : mem.blocks[i]? = some (some a))
    {n : Nat} (hn : n ≤ a.size) : mem.locate (blockAddress i) n = .ok a := by
  have hoffset : blockOffset (blockAddress i) = 0 := by
    rw [← addressOf_zero, blockOffset_addressOf hi (by decide)]
  unfold Memory.locate
  rw [blockIndex_blockAddress hi, if_neg (by omega), ha, hoffset]
  exact if_pos (by omega)

/-- An integer is stored at the start of an allocation and can be loaded again; other allocations stay. -/
theorem store_int (hpos : 0 < i) (hi : i < maxBlocks) {t : Ty} {bits : Nat} (ht : t.intBits? = some bits)
    (hbits : 8 ≤ bits) {a : Allocation} (ha : mem.blocks[i]? = some (some a)) (hsize : a.size = m.sizeOf t)
    (w : UInt64) : ∃ mem', Mem.store m t (blockAddress i) (.int w) mem = .ok () mem' ∧
      mem'.load m t (blockAddress i) = .ok (.int (Word.mask w bits)) ∧
      (∃ a', mem'.blocks[i]? = some (some a') ∧ a'.size = a.size) ∧
      ∀ j, j ≠ i → mem'.blocks[j]? = mem.blocks[j]? := by
  have hsize8 := sizeOf_int (m := m) ht hbits
  have hle := Ir.Emit.intBits?_le ht
  let update : Option Allocation → Option Allocation :=
    Option.map fun a => a.fill (blockOffset (blockAddress i)) (m.sizeOf t) (wordByte w)
  let mem' : Memory := { mem with blocks := mem.blocks.modify i update }
  have hoffset : blockOffset (blockAddress i) = 0 := by
    rw [← addressOf_zero, blockOffset_addressOf hi (by decide)]
  have hnew : mem'.blocks[i]? = some (some (a.fill 0 (m.sizeOf t) (wordByte w))) := by
    show (mem.blocks.modify i update)[i]? = _
    rw [Array.getElem?_modify, if_pos rfl, ha]
    simp [update, hoffset]
  refine ⟨mem', ?_, ?_, ⟨_, hnew, Allocation.size_fill ..⟩, fun j hj => ?_⟩
  · have hwrite : Mem.writeWord (blockAddress i) (m.sizeOf t) w mem = .ok () mem' := by
      rw [Mem.writeWord, if_neg (by omega), Mem.fill, locate_block hpos hi ha (Nat.le_of_eq hsize.symm),
        blockIndex_blockAddress hi]
    have hstore : Mem.store m t (blockAddress i) (.int w) = Mem.writeWord (blockAddress i) (m.sizeOf t) w := by
      cases t <;> cases ht
      all_goals
        simp only [Mem.store]
        exact storeWord_eq (m.sized_of_plain (by simp)) (by omega) _ _ _
    rw [hstore, hwrite]
  · have hread : mem'.readWord (blockAddress i) (m.sizeOf t) = .ok (Word.mask w bits) := by
      rw [Memory.readWord, locate_block hpos hi hnew (by rw [Allocation.size_fill]; exact Nat.le_of_eq hsize.symm),
        hoffset]
      refine congrArg Except.ok ?_
      show (a.fill 0 (m.sizeOf t) (wordByte w)).word 0 (m.sizeOf t) = _
      rw [Allocation.word_fill a (by omega) w, hsize8]
    cases t <;> cases ht <;> first | omega | simp only [Memory.load, hread]; rfl
  · show (mem.blocks.modify i update)[j]? = _
    rw [Array.getElem?_modify, if_neg (Ne.symm hj)]

end

/-! ### Slots of a frame -/

/-- The slots of the function that runs are the allocations from number `base` on. -/
structure Slotted (w : World) (base : Nat) (M : State) : Prop where
  pos : 0 < base
  address : ∀ {i : Nat} {x : Inst} {v : ValueId}, (w.func.slots Ir.Id.entry)[i]? = some x → x.result = some v →
    M.frame.value? v = some (.ptr (blockAddress (base + i)))
  block : ∀ {i : Nat} {x : Inst}, (w.func.slots Ir.Id.entry)[i]? = some x →
    ∃ a : Allocation, M.store.memory.blocks[base + i]? = some (some a) ∧ a.size = slotSize w.module x

/-- A slot keeps an integer of a type; its allocation has a number that an address can hold. -/
def Keeps (w : World) (base : Nat) (M : State) (slot : ValueId) (t : Ty) (word : UInt64) : Prop :=
  ∃ i, (w.func.slots Ir.Id.entry)[i]? = some ⟨some slot, .alloca t⟩ ∧ base + i < maxBlocks ∧
    M.store.memory.load w.module t (blockAddress (base + i)) = .ok (.int word)

section

variable {w : World} {base : Nat} {s b : Builder} {M M' : State} {slot : ValueId} {t : Ty} {word : UInt64}

/-- A function starts with its slots behind the allocations that there are. -/
theorem Prepared.slotted (h : Prepared w M (w.func.slots Ir.Id.entry).length M')
    (hpos : 0 < M.store.memory.blocks.size) : Slotted w M.store.memory.blocks.size M' where
  pos := hpos
  address {i x v} hx hv := by
    have hlt : i < (w.func.slots Ir.Id.entry).length := (List.getElem?_eq_some_iff.1 hx).1
    obtain ⟨hmem, ha⟩ := List.mem_filter.1 (List.mem_of_getElem? hx)
    obtain ⟨val, c, hval, hkind⟩ := (w.ok.insts _ x hmem).result v hv
    have hreg := h.held hlt hx hv
    simp [Frame.value?, h.func, hval, hkind, hreg]
  block {i x} hx := by
    have hlt : i < (w.func.slots Ir.Id.entry).length := (List.getElem?_eq_some_iff.1 hx).1
    refine ⟨{ size := slotSize w.module x }, ?_, rfl⟩
    rw [h.blocks, Array.getElem?_append_right (by omega), List.take_length, Nat.add_sub_cancel_left]
    simp [hx]

theorem isSlot_of_getElem? {i : Nat} {x : Inst} {v : ValueId} (hx : (w.func.slots Ir.Id.entry)[i]? = some x)
    (hv : x.result = some v) : IsSlot w.func v := ⟨x, List.mem_of_getElem? hx, hv⟩

/-- Code that leaves the store as it is keeps the slots. -/
theorem Slotted.moved (h : Slotted w base M) (m : Moved w.func s M b M') (hst : M'.store = M.store) :
    Slotted w base M' where
  pos := h.pos
  address hx hv := (m.stays.value? (.inr (isSlot_of_getElem? hx hv))).trans (h.address hx hv)
  block hx := by rw [hst]; exact h.block hx

theorem Keeps.store_eq (h : Keeps w base M slot t word) (hst : M'.store = M.store) :
    Keeps w base M' slot t word := by
  obtain ⟨i, hi, hlt, hload⟩ := h
  exact ⟨i, hi, hlt, by rw [hst]; exact hload⟩

theorem Slotted.keeps_address (h : Slotted w base M) (hk : Keeps w base M slot t word) :
    ∃ addr, M.frame.value? slot = some (.ptr addr) ∧ M.store.memory.load w.module t addr = .ok (.int word) := by
  obtain ⟨i, hi, -, hload⟩ := hk
  exact ⟨_, h.address hi rfl, hload⟩

/-- Storing an integer changes what its slot keeps, and no other slot. -/
theorem Slotted.store (h : Slotted w base M) (hw : ¬w.watched) {v : ValueId} (e : Acts s b (.store v slot))
    (hp : Part b w) (hM : At w.func s M) {i : Nat}
    (hi : (w.func.slots Ir.Id.entry)[i]? = some ⟨some slot, .alloca t⟩) (hroom : base + i < maxBlocks) {bits : Nat}
    (ht : t.intBits? = some bits) (hbits : 8 ≤ bits) (hv : M.frame.value? v = some (.int word))
    (hty : w.func.valueType v = t)
    (k : ∀ M', Moved w.func s M b M' → Slotted w base M' → Keeps w base M' slot t (Word.mask word bits) →
      (∀ {other u x}, other ≠ slot → Keeps w base M other u x → Keeps w base M' other u x) → w.goal M') :
    w.goal M := by
  have hpos := h.pos
  obtain ⟨a, ha, hsize⟩ := h.block hi
  obtain ⟨mem, hstore, hload, ⟨a', ha', hsize'⟩, hothers⟩ :=
    store_int (m := w.module) (by omega : 0 < base + i) hroom ht hbits ha hsize word
  have hperform : Exec.perform w.module (.store v slot) M = .ok (.done none) (M.withMemory mem) := by
    refine perform_store hv (h.address hi rfl) ?_
    rw [hM.func, hty]
    exact hstore
  -- the slots stay, this one keeps the new word, and the others have allocations of their own
  refine e.change hp hM (fun hwatch => absurd hwatch hw) hperform fun M' m hst _ => k M' m ?_ ?_ ?_
  · refine ⟨h.pos, fun hx hr => ?_, fun {j x} hx => ?_⟩
    · exact (m.stays.value? (.inr (isSlot_of_getElem? hx hr))).trans (h.address hx hr)
    · rw [hst]
      show ∃ a, mem.blocks[base + j]? = some (some a) ∧ _
      by_cases hj : j = i
      · subst hj
        rw [hi] at hx
        cases hx
        exact ⟨a', ha', hsize'.trans hsize⟩
      · rw [hothers _ (by omega)]
        exact h.block hx
  · refine ⟨i, hi, hroom, ?_⟩
    rw [hst]
    exact hload
  · rintro other u x hne ⟨j, hj, hlt, hkeep⟩
    refine ⟨j, hj, hlt, ?_⟩
    have hji : j ≠ i := by
      rintro rfl
      rw [hi] at hj
      cases hj
      exact hne rfl
    rw [hst]
    show mem.load w.module u _ = _
    rw [load_congr hlt (hothers _ (by omega)), hkeep]

end

end BlockForge.Machine
