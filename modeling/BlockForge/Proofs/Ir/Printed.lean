import BlockForge.Ir.Printer
import BlockForge.Proofs.Ir.Tandem
import BlockForge.Proofs.Numeric.Words

/-!
# What printed modules tell apart

In a printed function a value is its number behind a percent sign or behind a dot, and a block is its number behind
the block's name. So the names can be told apart whatever the strings in them are, if no block's name ends in a digit
or in a dot. Constants of one type and the bytes of constant texts can be told apart by what is printed for them.
-/

namespace BlockForge.Ir

/-! ### Numbered names -/

/-- A name that ends in no digit can be told from the number behind it. -/
theorem numbered_inj {stem stem' : String} {n n' : Nat} {c c' : Char} (hc : stem.toList.getLast? = some c)
    (hc' : stem'.toList.getLast? = some c') (hd : c.isDigit = false) (hd' : c'.isDigit = false)
    (h : stem ++ toString n = stem' ++ toString n') : stem = stem' ∧ n = n' := by
  have hlist := congrArg String.toList h
  simp only [String.toList_append, Nat.toString_eq_ofList_toDigits, String.toList_ofList] at hlist
  -- what one stem had more than the other would be digits
  have hnil : ∀ {t : List Char} {e : Char} {k : Nat}, t.getLast? = some e → (∀ x ∈ t, x ∈ Nat.toDigits 10 k) →
      e.isDigit = true := by
    intro t e k he ht
    exact Nat.isDigit_of_mem_toDigits (by decide) (by decide) (ht e (List.mem_of_getLast? he))
  have hstem : stem.toList = stem'.toList := by
    rcases List.append_eq_append_iff.1 hlist with ⟨t, ht, hn⟩ | ⟨t, ht, hn⟩
    · cases hl : t.getLast? with
      | none => simpa [List.getLast?_eq_none_iff.1 hl] using ht.symm
      | some e =>
        have := hnil (k := n) hl (by simp +contextual [hn])
        rw [ht, List.getLast?_append, hl] at hc'
        simp_all
    · cases hl : t.getLast? with
      | none => simpa [List.getLast?_eq_none_iff.1 hl] using ht
      | some e =>
        have := hnil (k := n') hl (by simp +contextual [hn])
        rw [ht, List.getLast?_append, hl] at hc
        simp_all
  have hs : stem = stem' := String.toList_inj.1 hstem
  rw [hs] at h
  refine ⟨hs, Nat.repr_inj.1 ?_⟩
  rw [hstem] at hlist
  exact String.toList_inj.1 (by simpa [Nat.repr_eq_ofList_toDigits] using List.append_cancel_left hlist)

/-! ### Integer constants -/

/-- Constants of one type that fit it are printed differently. -/
theorem printConstInt_inj {ty : Ty} {a b : UInt64} (ha : Word.mask a (ty.intBits?.getD 64) = a)
    (hb : Word.mask b (ty.intBits?.getD 64) = b) (h : printConstInt ty a = printConstInt ty b) : a = b := by
  have hbits : ty.intBits?.getD 64 ≤ 64 ∧ 0 < ty.intBits?.getD 64 := by cases ty <;> simp [Ty.intBits?]
  have hlt : ∀ {c : UInt64}, Word.mask c (ty.intBits?.getD 64) = c → c.toNat < 2 ^ ty.intBits?.getD 64 := by
    intro c hc
    rw [← hc, Word.toNat_mask hbits.1]
    exact Nat.mod_lt _ (Nat.two_pow_pos _)
  have ha' := hlt ha
  have hb' := hlt hb
  unfold printConstInt at h
  split at h
  · rename_i hty
    subst hty
    change a.toNat < 2 at ha'
    change b.toNat < 2 at hb'
    have hzero : ∀ {c : UInt64}, (c == 0) = decide (c.toNat = 0) := by
      intro c
      rw [Bool.eq_iff_iff, beq_iff_eq, decide_eq_true_iff, ← UInt64.toNat_inj]
      rfl
    rw [hzero, hzero] at h
    apply UInt64.toNat_inj.1
    by_cases h0 : a.toNat = 0 <;> by_cases h1 : b.toNat = 0 <;> simp [h0, h1] at h <;> omega
  · have hint := Int.repr_inj.1 h
    rw [Word.toInt_signExtend hbits.1 hbits.2, Word.toInt_signExtend hbits.1 hbits.2] at hint
    have := congrArg (· % ((2 ^ ty.intBits?.getD 64 : Nat) : Int)) hint
    simp only [Int.bmod_emod] at this
    rw [Int.emod_eq_of_lt (by omega) (by exact_mod_cast ha'), Int.emod_eq_of_lt (by omega) (by exact_mod_cast hb')] at this
    exact UInt64.toNat_inj.1 (by exact_mod_cast this)

/-! ### Constant texts -/

/-- The text between the quotes of a printed constant. -/
def Global.escaped (g : Global) : String := String.join (g.bytes.toList.map printByte)

theorem Module.printGlobal_eq (g : Global) : printGlobal g =
    "@" ++ g.name ++ " = private constant [" ++ toString g.bytes.size ++ " x i8] c\"" ++ g.escaped ++ "\"" := rfl

/-- The digits of an escape. -/
def IsHex (c : Char) : Prop := (0x30 ≤ c.toNat ∧ c.toNat ≤ 0x39) ∨ (0x41 ≤ c.toNat ∧ c.toNat ≤ 0x46)

/-- Text that may stand between quotes: visible ASCII characters and blanks, no quote, and backslashes only in front
of two hexadecimal digits. -/
structure Escaped (text : List Char) : Prop where
  visible : ∀ c ∈ text, 0x20 ≤ c.toNat ∧ c.toNat ≤ 0x7e ∧ c ≠ '"'
  escapes : ∀ before after, text = before ++ '\\' :: after →
    ∃ x y rest, after = x :: y :: rest ∧ IsHex x ∧ IsHex y

def hexChar (n : Nat) : Char := (Nat.digitChar n).toUpper

theorem isHex_hexChar : ∀ n < 16, IsHex (hexChar n) := by
  unfold IsHex
  decide

theorem hexChar_inj : ∀ n < 16, ∀ k < 16, hexChar n = hexChar k → n = k := by decide

theorem IsHex.visible {c : Char} (h : IsHex c) : 0x20 ≤ c.toNat ∧ c.toNat ≤ 0x7e ∧ c ≠ '"' ∧ c ≠ '\\' := by
  have hne : ∀ d : Char, d.toNat = 0x22 ∨ d.toNat = 0x5c → c ≠ d := by
    rintro d hd rfl
    unfold IsHex at h
    omega
  refine ⟨?_, ?_, hne _ (.inl rfl), hne _ (.inr rfl)⟩ <;> unfold IsHex at h <;> omega

/-- What a byte is printed as. -/
theorem printByte_cases (b : UInt8) :
    (∃ c, (printByte b).toList = [c] ∧ c.toNat = b.toNat ∧ 0x20 ≤ c.toNat ∧ c.toNat ≤ 0x7e ∧ c ≠ '"' ∧ c ≠ '\\') ∨
      (printByte b).toList = ['\\', hexChar (b.toNat / 16), hexChar (b.toNat % 16)] := by
  unfold printByte
  split
  · rename_i h
    simp only [Bool.and_eq_true, decide_eq_true_eq, bne_iff_ne, ne_eq] at h
    obtain ⟨⟨⟨hlow, hhigh⟩, hquote⟩, hslash⟩ := h
    rw [UInt8.le_iff_toNat_le] at hlow hhigh
    have hvalid : b.toNat.isValidChar := .inl (Nat.lt_of_le_of_lt hhigh (by decide))
    have hn : (Char.ofNat b.toNat).toNat = b.toNat := by rw [Char.toNat_ofNat, if_pos hvalid]
    have hne : ∀ (c : Char) (k : UInt8), c.toNat = k.toNat → b ≠ k → Char.ofNat b.toNat ≠ c := by
      intro c k hk hb he
      exact hb (UInt8.toNat_inj.1 (by rw [← hn, he, hk]))
    refine .inl ⟨_, String.toList_ofList, hn, ?_, ?_, hne _ 0x22 rfl hquote, hne _ 0x5c rfl hslash⟩
    · rw [hn]; exact hlow
    · rw [hn]; exact hhigh
  · exact .inr (by simp [hexByte, hexChar])

/-- A byte can be told from what follows it. -/
theorem printByte_append_inj {b c : UInt8} {xs ys : List Char}
    (h : (printByte b).toList ++ xs = (printByte c).toList ++ ys) : b = c ∧ xs = ys := by
  rcases printByte_cases b with ⟨x, hx, hb, -, -, -, hxs⟩ | hx <;>
    rcases printByte_cases c with ⟨y, hy, hc, -, -, -, hys⟩ | hy <;> rw [hx, hy] at h <;>
    simp only [List.cons_append, List.nil_append, List.cons.injEq] at h
  · exact ⟨UInt8.toNat_inj.1 (by rw [← hb, h.1, hc]), h.2⟩
  · exact absurd h.1 hxs
  · exact absurd h.1.symm hys
  · obtain ⟨-, hhigh, hlow, hrest⟩ := h
    have hlt := b.toNat_lt
    have hlt' := c.toNat_lt
    have h₁ := hexChar_inj _ (by omega) _ (by omega) hhigh
    have h₂ := hexChar_inj _ (by omega) _ (by omega) hlow
    exact ⟨UInt8.toNat_inj.1 (by omega), hrest⟩

theorem escaped_toList (g : Global) : g.escaped.toList = g.bytes.toList.flatMap fun b => (printByte b).toList := by
  rw [Global.escaped, String.toList_join, List.flatMap_map]

/-- Different bytes are printed differently. -/
theorem Global.escaped_inj {g h : Global} (heq : g.escaped = h.escaped) : g.bytes = h.bytes := by
  have hne : ∀ (b : UInt8) (xs : List Char), (printByte b).toList ++ xs ≠ [] := by
    intro b xs
    rcases printByte_cases b with ⟨c, hc, -⟩ | hc <;> simp [hc]
  have hlists : ∀ bs cs : List UInt8, (bs.flatMap fun b => (printByte b).toList) =
      (cs.flatMap fun b => (printByte b).toList) → bs = cs := by
    intro bs
    induction bs with
    | nil =>
      intro cs h
      cases cs with
      | nil => rfl
      | cons c cs => exact absurd h.symm (hne c _)
    | cons b bs ih =>
      intro cs h
      cases cs with
      | nil => exact absurd h (hne b _)
      | cons c cs =>
        rw [List.flatMap_cons, List.flatMap_cons] at h
        obtain ⟨rfl, hrest⟩ := printByte_append_inj h
        rw [ih cs hrest]
  have := congrArg String.toList heq
  rw [escaped_toList, escaped_toList] at this
  exact Array.toList_inj.1 (hlists _ _ this)

/-- A character in front. -/
theorem Escaped.cons {c : Char} {text : List Char} (h : Escaped text)
    (hc : 0x20 ≤ c.toNat ∧ c.toNat ≤ 0x7e ∧ c ≠ '"') (hslash : c = '\\' → ∃ x y rest, text = x :: y :: rest ∧
      IsHex x ∧ IsHex y) : Escaped (c :: text) where
  visible := by simpa [hc] using h.visible
  escapes before after he := by
    cases before with
    | nil =>
      obtain ⟨rfl, rfl⟩ := List.cons.inj he
      exact hslash rfl
    | cons _ before => exact h.escapes before after (List.cons.inj he).2

theorem Global.escaped_escaped (g : Global) : Escaped g.escaped.toList := by
  rw [escaped_toList]
  induction g.bytes.toList with
  | nil => exact ⟨by simp, by simp⟩
  | cons b bs ih =>
    rw [List.flatMap_cons]
    rcases printByte_cases b with ⟨c, hc, -, hlow, hhigh, hquote, hslash⟩ | hc
    · rw [hc]
      exact ih.cons ⟨hlow, hhigh, hquote⟩ fun h => absurd h hslash
    · have hlt := b.toNat_lt
      have hdigit : ∀ {n text}, n < 16 → Escaped text → Escaped (hexChar n :: text) := fun hn ht =>
        have hv := (isHex_hexChar _ hn).visible
        ht.cons ⟨hv.1, hv.2.1, hv.2.2.1⟩ fun h => absurd h hv.2.2.2
      rw [hc]
      refine Escaped.cons (hdigit (by omega) (hdigit (by omega) ih)) (by decide) fun _ => ?_
      exact ⟨_, _, _, rfl, isHex_hexChar _ (by omega), isHex_hexChar _ (by omega)⟩

/-! ### Tidy functions -/

namespace Function

/-- The results of all instructions, block by block. -/
def results (f : Function) : List ValueId := f.insts.filterMap (·.result)

/-- The names that a printed function gives: to its parameters, its blocks and its results. -/
def givenNames (m : Module) (f : Function) : List String :=
  (List.range f.params.length).map (fun i => f.printValue m (param i)) ++
    (List.range f.blocks.size).map (fun i => "%" ++ f.printLabel ⟨i⟩) ++ f.results.map (f.printValue m)

/-- A function whose names can be told apart and whose constants fit their types. -/
structure Tidy (f : Function) : Prop where
  labels : ∀ name ∈ f.blocks.toList.map (·.name), IsLabel name
  once : f.results.Nodup
  result : ∀ r ∈ f.results, ∃ ty block name, f.value? r = some ⟨ty, .inst block, name⟩
  params : ∀ i < f.params.length, ∃ ty, f.value? (param i) = some ⟨ty, .param i, ""⟩
  masked : ∀ {ty bits name}, ⟨ty, .constInt bits, name⟩ ∈ f.values.toList →
    Word.mask bits (ty.intBits?.getD 64) = bits

theorem printLabel_eq {f : Function} {i : BlockId} {b : Block} (hb : f.block? i = some b) (hl : IsLabel b.name) :
    f.printLabel i = b.name ++ toString i.index := by
  obtain ⟨c, hc, -⟩ := hl
  have hne : b.name.isEmpty = false := by
    cases he : b.name.isEmpty with
    | false => rfl
    | true =>
      have : b.name = "" := String.isEmpty_iff.1 he
      simp [this] at hc
  simp [printLabel, hb, hne]

theorem getLast?_append_of_some {s t : String} {c : Char} (h : t.toList.getLast? = some c) :
    (s ++ t).toList.getLast? = some c := by
  rw [String.toList_append, List.getLast?_append, h]
  rfl

/-- A value that is named: a parameter, or a result of some name. -/
def Named (f : Function) (v : ValueId) : Prop :=
  (∃ ty i, f.value? v = some ⟨ty, .param i, ""⟩) ∨ ∃ ty block name, f.value? v = some ⟨ty, .inst block, name⟩

/-- A value's name is its number behind a stem that ends like no label. -/
theorem Named.printValue {f : Function} {v : ValueId} (h : f.Named v) (m : Module) :
    ∃ stem c, f.printValue m v = stem ++ toString v.index ∧ stem.toList.getLast? = some c ∧ c.isDigit = false ∧
      (stem = "%" ∨ c = '.') := by
  rcases h with ⟨ty, i, hv⟩ | ⟨ty, block, name, hv⟩
  · exact ⟨"%", '%', by simp [Function.printValue, hv], rfl, rfl, .inl rfl⟩
  · cases hn : name.isEmpty with
    | true => exact ⟨"%", '%', by simp [Function.printValue, hv, hn], rfl, rfl, .inl rfl⟩
    | false =>
      exact ⟨"%" ++ name ++ ".", '.', by simp [Function.printValue, hv, hn], getLast?_append_of_some rfl, rfl, .inr rfl⟩

/-- Values that are named go by their names. -/
theorem Named.inj {f : Function} {v w : ValueId} (hv : f.Named v) (hw : f.Named w) {m : Module}
    (h : f.printValue m v = f.printValue m w) : v = w := by
  obtain ⟨s, c, hs, hc, hd, -⟩ := hv.printValue m
  obtain ⟨s', c', hs', hc', hd', -⟩ := hw.printValue m
  rw [hs, hs'] at h
  exact Id.ext (numbered_inj hc hc' hd hd' h).2

namespace Tidy

variable {f : Function} (h : f.Tidy)

include h

theorem named_param {i : Nat} (hi : i < f.params.length) : f.Named (param i) := by
  obtain ⟨ty, hv⟩ := h.params i hi
  exact .inl ⟨ty, i, hv⟩

theorem named_result {r : ValueId} (hr : r ∈ f.results) : f.Named r := .inr (h.result r hr)

/-- A label is a number behind a stem that ends like no value's. -/
theorem label {i : Nat} (hi : i < f.blocks.size) :
    ∃ stem c, "%" ++ f.printLabel ⟨i⟩ = stem ++ toString i ∧ stem.toList.getLast? = some c ∧ c.isDigit = false ∧
      stem ≠ "%" ∧ c ≠ '.' := by
  have hl := h.labels f.blocks[i].name (List.mem_map_of_mem (by simp))
  rw [printLabel_eq (show f.block? ⟨i⟩ = some f.blocks[i] by simp [block?, hi]) hl]
  obtain ⟨c, hc, hd⟩ := hl
  rw [Bool.or_eq_false_iff, beq_eq_false_iff_ne] at hd
  refine ⟨"%" ++ f.blocks[i].name, c, String.append_assoc.symm, getLast?_append_of_some hc, hd.1, fun he => ?_, hd.2⟩
  have hlist := congrArg String.toList he
  rw [String.toList_append] at hlist
  have hnil : f.blocks[i].name.toList = [] := by simpa using hlist
  rw [hnil] at hc
  cases hc

theorem label_inj {i j : Nat} (hi : i < f.blocks.size) (hj : j < f.blocks.size)
    (heq : "%" ++ f.printLabel ⟨i⟩ = "%" ++ f.printLabel ⟨j⟩) : i = j := by
  obtain ⟨s, c, hs, hc, hd, -⟩ := h.label hi
  obtain ⟨s', c', hs', hc', hd', -⟩ := h.label hj
  rw [hs, hs'] at heq
  exact (numbered_inj hc hc' hd hd' heq).2

/-- Blocks and values share no name. -/
theorem label_ne {i : Nat} (hi : i < f.blocks.size) {v : ValueId} (hv : f.Named v) (m : Module) :
    f.printValue m v ≠ "%" ++ f.printLabel ⟨i⟩ := by
  intro heq
  obtain ⟨s, c, hs, hc, hd, hne, hdot⟩ := h.label hi
  obtain ⟨s', c', hs', hc', hd', hstem⟩ := hv.printValue m
  rw [hs, hs'] at heq
  obtain ⟨rfl, -⟩ := numbered_inj hc' hc hd' hd heq
  obtain rfl : c' = c := Option.some.inj (hc'.symm.trans hc)
  exact hstem.elim hne hdot

/-- Parameters, blocks and results have different names. -/
theorem nodup_givenNames (m : Module) : (f.givenNames m).Nodup := by
  have hresult := h.result
  unfold givenNames
  rw [List.nodup_append, List.nodup_append]
  refine ⟨⟨?params, ?labels, ?paramLabel⟩, ?results, ?resultOther⟩
  case params =>
    refine List.nodup_range.map_on fun i hi j hj heq => ?_
    have := (h.named_param (List.mem_range.1 hi)).inj (h.named_param (List.mem_range.1 hj)) heq
    exact congrArg Id.index this
  case labels =>
    exact List.nodup_range.map_on fun i hi j hj => h.label_inj (List.mem_range.1 hi) (List.mem_range.1 hj)
  case paramLabel =>
    intro _ hp _ hl heq
    obtain ⟨i, hi, rfl⟩ := List.mem_map.1 hp
    obtain ⟨j, hj, rfl⟩ := List.mem_map.1 hl
    exact h.label_ne (List.mem_range.1 hj) (h.named_param (List.mem_range.1 hi)) m heq
  case results =>
    exact h.once.map_on fun v hv w hw => (h.named_result hv).inj (h.named_result hw)
  case resultOther =>
    intro _ hother _ hr heq
    obtain ⟨r, hmem, rfl⟩ := List.mem_map.1 hr
    rcases List.mem_append.1 hother with hp | hl
    · obtain ⟨i, hi, rfl⟩ := List.mem_map.1 hp
      -- a parameter is no result
      obtain rfl := (h.named_param (List.mem_range.1 hi)).inj (h.named_result hmem) heq
      obtain ⟨ty, hv⟩ := h.params i (List.mem_range.1 hi)
      obtain ⟨ty', block, name, hv'⟩ := h.result _ hmem
      rw [hv] at hv'
      cases hv'
    · obtain ⟨j, hj, rfl⟩ := List.mem_map.1 hl
      exact h.label_ne (List.mem_range.1 hj) (h.named_result hmem) m heq.symm

end Tidy

end Function

end BlockForge.Ir
