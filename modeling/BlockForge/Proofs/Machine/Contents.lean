import BlockForge.Proofs.Machine.Slots

/-!
# Memory as a store of byte arrays

Memory is seen through the byte arrays of its live allocations. Each operation is exact on this view: it succeeds
when the ranges that it touches lie in live allocations, changes the bytes that it is asked to change and no
others, and leaves the memory alone where it fails. Numbers are not given out twice, so a released allocation is
gone for good.
-/

namespace BlockForge.Machine

/-! ### Byte arrays by number -/

/-- The bytes of each live allocation, by number. -/
abbrev Contents := Nat → Option (List UInt8)

/-- Some bytes with others in their place from a position on. -/
def overwrite (old : List UInt8) (start : Nat) (new : List UInt8) : List UInt8 :=
  old.take start ++ new ++ old.drop (start + new.length)

namespace Contents

variable (c : Contents) (addr : UInt64)

/-- All of `len` bytes from an address on lie in one live allocation. -/
def Holds (len : Nat) : Prop :=
  ∃ bytes, c (blockIndex addr) = some bytes ∧ blockOffset addr + len ≤ bytes.length

/-- The bytes from an address on. -/
def slice (len : Nat) : List UInt8 :=
  (((c (blockIndex addr)).getD []).drop (blockOffset addr)).take len

/-- The contents with other bytes from an address on. -/
def put (new : List UInt8) : Contents :=
  Function.update c (blockIndex addr)
    ((c (blockIndex addr)).map fun old => overwrite old (blockOffset addr) new)

theorem put_nil : c.put addr [] = c := by
  have hsame : (c (blockIndex addr)).map (fun old => overwrite old (blockOffset addr) []) = c (blockIndex addr) := by
    cases c (blockIndex addr) <;> simp [overwrite]
  rw [put, hsame, Function.update_eq_self]

end Contents

def Allocation.bytes (a : Allocation) : List UInt8 := (List.range a.size).map a.byte

/-- What a memory holds. -/
def Memory.contents (m : Memory) : Contents := fun i => (m.blocks[i]?).join.map Allocation.bytes

namespace Allocation

variable (a : Allocation)

@[simp] theorem length_bytes : a.bytes.length = a.size := by simp [bytes]

theorem getElem?_bytes (i : Nat) : a.bytes[i]? = if i < a.size then some (a.byte i) else none := by
  simp only [bytes, List.getElem?_map]
  split
  · rw [List.getElem?_range (by assumption)]
    rfl
  · rw [List.getElem?_eq_none (by simpa using by omega)]
    rfl

theorem bytes_fill {start n : Nat} (h : start + n ≤ a.size) (g : Nat → UInt8) :
    (a.fill start n g).bytes = overwrite a.bytes start ((List.range n).map g) := by
  apply List.ext_getElem?
  intro i
  rw [getElem?_bytes, size_fill, byte_fill, overwrite, List.append_assoc, List.getElem?_append,
    List.getElem?_append]
  simp only [List.length_take, length_bytes, List.length_map, List.length_range,
    Nat.min_eq_left (show start ≤ a.size by omega)]
  by_cases hbefore : i < start
  · rw [if_pos (by omega), if_neg (by omega), if_pos hbefore, List.getElem?_take, if_pos hbefore,
      getElem?_bytes, if_pos (by omega)]
  · rw [if_neg hbefore]
    by_cases hin : i < start + n
    · rw [if_pos (by omega), if_pos (by omega), if_pos (by omega), List.getElem?_map,
        List.getElem?_range (by omega)]
      rfl
    · have hafter : ¬i - start < n := by omega
      have hback : start + n + (i - start - n) = i := by omega
      simp only [hin, and_false, if_false]
      rw [if_neg hafter, List.getElem?_drop, hback, getElem?_bytes]

theorem take_drop_bytes {start n : Nat} (h : start + n ≤ a.size) :
    (a.bytes.drop start).take n = (List.range n).map fun i => a.byte (start + i) := by
  apply List.ext_getElem?
  intro i
  rw [List.getElem?_take, List.getElem?_drop, getElem?_bytes, List.getElem?_map]
  by_cases hi : i < n
  · rw [if_pos hi, if_pos (by omega), List.getElem?_range hi]
    rfl
  · rw [if_neg hi, List.getElem?_eq_none (by simpa using by omega)]
    rfl

/-- A word is the number that its bytes spell, lowest first; what does not fit is cut off. -/
theorem toNat_word_eq_ofDigits (offset n : Nat) : (a.word offset n).toNat =
    Nat.ofDigits 256 ((List.range n).map fun i => (a.byte (offset + i)).toNat) % 2 ^ 64 := by
  induction n generalizing offset with
  | zero => simp [word]
  | succ n ih =>
    have hbyte : (a.byte offset).toNat < 2 ^ 8 := (a.byte offset).toNat_lt
    have hrest : (List.range n).map ((fun i => (a.byte (offset + i)).toNat) ∘ Nat.succ) =
        (List.range n).map fun i => (a.byte (offset + 1 + i)).toNat := by
      apply List.map_congr_left
      intro i _
      show (a.byte (offset + (i + 1))).toNat = _
      rw [Nat.add_assoc, Nat.add_comm 1 i]
    rw [List.range_succ_eq_map, List.map_cons, List.map_map, hrest, Nat.ofDigits_cons, Nat.add_zero,
      word, UInt64.toNat_or, UInt64.toNat_shiftLeft, UInt8.toNat_toUInt64, ih,
      show (8 : UInt64).toNat % 64 = 8 from rfl, Nat.shiftLeft_eq]
    generalize Nat.ofDigits 256 ((List.range n).map fun i => (a.byte (offset + 1 + i)).toNat) = rest
    -- the shifted rest is a multiple of 256, so that the byte is added to it
    obtain ⟨k, hk⟩ : ∃ k, rest % 2 ^ 64 * 2 ^ 8 % 2 ^ 64 = 2 ^ 8 * k := ⟨rest % 2 ^ 56, by omega⟩
    rw [hk, ← Nat.two_pow_add_eq_or_of_lt hbyte, Nat.add_zero]
    omega

end Allocation

/-! ### Finding an allocation -/

/-- Number zero is not an allocation. -/
def Memory.Rooted (m : Memory) : Prop := m.blocks[0]? = some none

namespace Memory

variable {m : Memory} {addr : UInt64} {len : Nat} {a : Allocation}

theorem locate_eq_ok : m.locate addr len = .ok a ↔
    blockIndex addr ≠ 0 ∧ m.blocks[blockIndex addr]? = some (some a) ∧ blockOffset addr + len ≤ a.size := by
  unfold locate
  split
  · rename_i h
    simp [h]
  · rename_i hne
    split
    · rename_i b hb
      split
      · rename_i hle
        rw [hb]
        constructor
        · intro h
          cases h
          exact ⟨hne, rfl, hle⟩
        · intro h
          rw [Option.some.inj (Option.some.inj h.2.1)]
      · rename_i hgt
        rw [hb]
        constructor
        · intro h
          cases h
        · intro h
          rw [Option.some.inj (Option.some.inj h.2.1)] at hgt
          exact absurd h.2.2 hgt
    · rename_i hother
      constructor
      · intro h
        cases h
      · exact fun h => absurd h.2.1 (hother a)

theorem contents_eq_some {i : Nat} {bytes : List UInt8} :
    m.contents i = some bytes ↔ ∃ a, m.blocks[i]? = some (some a) ∧ a.bytes = bytes := by
  simp only [contents, Option.map_eq_some_iff, Option.join_eq_some_iff]

theorem contents_of_locate (h : m.locate addr len = .ok a) :
    m.contents (blockIndex addr) = some a.bytes :=
  contents_eq_some.2 ⟨a, (locate_eq_ok.1 h).2.1, rfl⟩

/-- A range lies in a live allocation exactly if it can be located. -/
theorem Rooted.holds_iff (hm : m.Rooted) : m.contents.Holds addr len ↔ ∃ a, m.locate addr len = .ok a := by
  constructor
  · intro h
    obtain ⟨bytes, hbytes, hle⟩ := h
    obtain ⟨a, hb, rfl⟩ := contents_eq_some.1 hbytes
    rw [a.length_bytes] at hle
    have hpos : blockIndex addr ≠ 0 := by
      intro hzero
      rw [hzero, hm] at hb
      cases hb
    exact ⟨a, locate_eq_ok.2 ⟨hpos, hb, hle⟩⟩
  · intro h
    obtain ⟨a, ha⟩ := h
    exact ⟨a.bytes, contents_of_locate ha, by simpa using (locate_eq_ok.1 ha).2.2⟩

theorem contents_modify (hi : m.blocks[blockIndex addr]? = some (some a)) (f : Allocation → Allocation) :
    ({ m with blocks := m.blocks.modify (blockIndex addr) (Option.map f) } : Memory).contents =
      Function.update m.contents (blockIndex addr) (some (f a).bytes) := by
  funext i
  simp only [contents, Array.getElem?_modify, Function.update_apply]
  by_cases h : i = blockIndex addr
  · rw [if_pos h, if_pos h.symm, h, hi]
    rfl
  · rw [if_neg h, if_neg (Ne.symm h)]

theorem contents_push (size : Nat) :
    ({ m with blocks := m.blocks.push (some { size }) } : Memory).contents =
      Function.update m.contents m.blocks.size (some (List.replicate size 0)) := by
  have hzeros : ({ size } : Allocation).bytes = List.replicate size 0 := by
    apply List.ext_getElem?
    intro i
    rw [Allocation.getElem?_bytes, List.getElem?_replicate]
    rfl
  funext i
  simp only [contents, Array.getElem?_push, Function.update_apply]
  split
  · rw [← hzeros]
    rfl
  · rfl

theorem contents_release (m : Memory) (addr : UInt64) :
    (m.release addr).contents = Function.update m.contents (blockIndex addr) none := by
  funext i
  simp only [contents, release, Array.getElem?_setIfInBounds, Function.update_apply]
  by_cases h : i = blockIndex addr
  · rw [if_pos h, if_pos h.symm]
    split <;> rfl
  · rw [if_neg h, if_neg (Ne.symm h)]

end Memory

/-! ### Exact operations -/

/-- The operation succeeds if `P` holds, with the contents `c` afterwards; otherwise it fails and leaves the
memory as it was. -/
def Mem.Does (op : Mem Unit) (m : Memory) (P : Prop) (c : Contents) : Prop :=
  (P → ∃ m', op m = .ok () m' ∧ m'.contents = c) ∧ (¬P → ∃ e, op m = .error e m)

section

variable {m : Memory} (hm : m.Rooted)

include hm

theorem fill_does (addr : UInt64) (n : Nat) (g : Nat → UInt8) :
    (Mem.fill addr n g).Does m (m.contents.Holds addr n) (m.contents.put addr ((List.range n).map g)) := by
  constructor
  · intro h
    obtain ⟨a, ha⟩ := hm.holds_iff.1 h
    obtain ⟨-, hb, hle⟩ := Memory.locate_eq_ok.1 ha
    refine ⟨_, by rw [Mem.fill, ha], ?_⟩
    rw [Memory.contents_modify hb, a.bytes_fill hle, Contents.put, Memory.contents_of_locate ha, Option.map_some]
  · intro h
    cases hl : m.locate addr n with
    | ok a => exact absurd (hm.holds_iff.2 ⟨a, hl⟩) h
    | error e => exact ⟨e, by rw [Mem.fill, hl]⟩

theorem write_does (addr : UInt64) (bytes : Array UInt8) :
    (Mem.write addr bytes).Does m (m.contents.Holds addr bytes.size) (m.contents.put addr bytes.toList) := by
  have hbytes : (List.range bytes.size).map (fun i => bytes.getD i 0) = bytes.toList := by
    apply List.ext_getElem (by simp)
    intro i h₁ h₂
    have hi : i < bytes.size := by simpa using h₂
    simp [hi]
  rw [← hbytes]
  exact fill_does hm addr bytes.size _

def wordBytes (w : UInt64) (size : Nat) : List UInt8 := (List.range size).map (wordByte w)

theorem writeWord_does (addr : UInt64) (size : Nat) (w : UInt64) :
    (Mem.writeWord addr size w).Does m (size ≤ 8 ∧ m.contents.Holds addr size)
      (m.contents.put addr (wordBytes w size)) := by
  unfold Mem.writeWord
  split
  · rename_i hbig
    exact ⟨fun h => absurd h.1 (by omega), fun _ => ⟨_, rfl⟩⟩
  · obtain ⟨hok, herror⟩ := fill_does hm addr size (wordByte w)
    exact ⟨fun h => hok h.2, fun h => herror fun hholds => h ⟨by omega, hholds⟩⟩

theorem copy_does (dst src : UInt64) (len : Nat) :
    (Mem.copy dst src len).Does m (len = 0 ∨ m.contents.Holds src len ∧ m.contents.Holds dst len)
      (m.contents.put dst (m.contents.slice src len)) := by
  unfold Mem.Does Mem.copy
  by_cases hlen : len = 0
  · subst hlen
    refine ⟨fun _ => ⟨m, rfl, ?_⟩, fun h => absurd (.inl rfl) h⟩
    rw [Contents.slice, List.take_zero, Contents.put_nil]
  · simp only [if_neg hlen, or_iff_right hlen]
    cases hl : m.locate src len with
    | error e =>
      refine ⟨fun h => ?_, fun _ => ⟨e, rfl⟩⟩
      obtain ⟨a, ha⟩ := hm.holds_iff.1 h.1
      rw [hl] at ha
      cases ha
    | ok a =>
      -- the bytes come from the allocation as it was found, whatever the fill does to it
      have hsource : m.contents.Holds src len := hm.holds_iff.2 ⟨a, hl⟩
      have hslice : (List.range len).map (fun i => a.byte (blockOffset src + i)) = m.contents.slice src len := by
        rw [Contents.slice, Memory.contents_of_locate hl, Option.getD_some,
          a.take_drop_bytes (Memory.locate_eq_ok.1 hl).2.2]
      obtain ⟨hok, herror⟩ := fill_does hm dst len fun i => a.byte (blockOffset src + i)
      rw [hslice] at hok
      exact ⟨fun h => hok h.2, fun h => herror fun hdst => h ⟨hsource, hdst⟩⟩

theorem read_does (addr : UInt64) (size : Nat) :
    (m.contents.Holds addr size → ∃ v, m.readWord addr size = .ok v ∧
      v.toNat = Nat.ofDigits 256 ((m.contents.slice addr size).map UInt8.toNat) % 2 ^ 64) ∧
    (¬m.contents.Holds addr size → ∃ e, m.readWord addr size = .error e) := by
  unfold Memory.readWord
  constructor
  · intro h
    obtain ⟨a, ha⟩ := hm.holds_iff.1 h
    refine ⟨_, by rw [ha]; rfl, ?_⟩
    rw [a.toNat_word_eq_ofDigits, Contents.slice, Memory.contents_of_locate ha, Option.getD_some,
      a.take_drop_bytes (Memory.locate_eq_ok.1 ha).2.2, List.map_map]
    rfl
  · intro h
    cases hl : m.locate addr size with
    | ok a => exact absurd (hm.holds_iff.2 ⟨a, hl⟩) h
    | error e => exact ⟨e, rfl⟩

end

/-- A word that was written is read again, cut to its size. -/
theorem readWord_writeWord {m m' : Memory} {addr : UInt64} {size : Nat} {w : UInt64} (hsize : size ≤ 8)
    (h : Mem.writeWord addr size w m = .ok () m') :
    ∃ v, m'.readWord addr size = .ok v ∧ v.toNat = w.toNat % 2 ^ (8 * size) := by
  rw [Mem.writeWord, if_neg (by omega), Mem.fill] at h
  cases hl : m.locate addr size with
  | error e =>
    rw [hl] at h
    cases h
  | ok a =>
    rw [hl] at h
    cases h
    obtain ⟨hpos, hb, hle⟩ := Memory.locate_eq_ok.1 hl
    have hnew : Memory.locate { m with blocks := m.blocks.modify (blockIndex addr) (Option.map fun a =>
        a.fill (blockOffset addr) size (wordByte w)) } addr size =
        .ok (a.fill (blockOffset addr) size (wordByte w)) := by
      refine Memory.locate_eq_ok.2 ⟨hpos, ?_, by simpa using hle⟩
      rw [Array.getElem?_modify, if_pos rfl, hb]
      rfl
    refine ⟨_, by rw [Memory.readWord, hnew]; rfl, ?_⟩
    rw [Allocation.toNat_word_of_bytes (s := 0) (w := w) (by omega)]
    · simp
    · intro k hk
      rw [Allocation.byte_fill, if_pos (by omega), Nat.add_sub_cancel_left, Nat.zero_add]

end BlockForge.Machine
