import BlockForge.Machine.Arith
import Mathlib

/-!
# Words as integers

A word of `bits` bits stands for a class of integers modulo `2 ^ bits`; `Word.encode` is the word of an
integer. Every operation of the machine at a width, on the words of two integers, gives the word of
what the operation gives on the integers.
-/

namespace BlockForge

/-- The integer of a width that an integer wraps to. -/
def wrapInt (signed : Bool) (bits : Nat) (n : Int) : Int :=
  if signed then n.bmod (2 ^ bits) else n % (2 ^ bits : Nat)

theorem wrapInt_modEq (signed : Bool) (bits : Nat) (n : Int) :
    wrapInt signed bits n ≡ n [ZMOD (2 ^ bits : Nat)] := by
  unfold wrapInt
  split
  · exact Int.bmod_emod
  · exact Int.mod_modEq n _

/-- The bits of an integer at a width. -/
def intBits (bits : Nat) (n : Int) : Nat := (n % (2 ^ bits : Nat)).toNat

theorem wrapInt_wrapInt (signed : Bool) (bits : Nat) (n : Int) :
    wrapInt signed bits (wrapInt signed bits n) = wrapInt signed bits n := by
  cases signed <;> simp [wrapInt]

/-- Wrapping depends on the class of an integer only. -/
theorem wrapInt_congr {signed : Bool} {bits : Nat} {a b : Int}
    (h : a ≡ b [ZMOD (2 ^ bits : Nat)]) : wrapInt signed bits a = wrapInt signed bits b := by
  unfold wrapInt
  split
  · rw [← Int.emod_bmod a, ← Int.emod_bmod b, h]
  · exact h

/-- Multiplying by a power of two multiplies the balanced remainder. -/
theorem bmod_mul_pow (n : Int) {a : Nat} (ha : 0 < a) (b : Nat) :
    (n * (2 ^ b : Nat)).bmod (2 ^ (a + b)) = n.bmod (2 ^ a) * (2 ^ b : Nat) := by
  obtain ⟨k, rfl⟩ : ∃ k, a = k + 1 := ⟨a - 1, by omega⟩
  have hb : (0 : Int) < (2 ^ b : Nat) := by positivity
  have hhalf : ((2 ^ (k + 1) : Nat) : Int) = 2 * (2 ^ k : Nat) := by
    rw [pow_succ]
    omega
  have hwhole : ((2 ^ (k + 1 + b) : Nat) : Int) = 2 * ((2 ^ k : Nat) * (2 ^ b : Nat)) := by
    rw [pow_add, Nat.cast_mul, hhalf, mul_assoc]
  have hlow : -((2 ^ k : Nat) : Int) ≤ n.bmod (2 ^ (k + 1)) := by
    have := Int.le_bmod (x := n) (m := 2 ^ (k + 1)) (by positivity)
    omega
  have hhigh : n.bmod (2 ^ (k + 1)) < (2 ^ k : Nat) := by
    have := Int.bmod_lt (x := n) (m := 2 ^ (k + 1)) (by positivity)
    omega
  have hlow' : -((2 ^ k : Nat) * (2 ^ b : Nat) : Int) ≤ n.bmod (2 ^ (k + 1)) * (2 ^ b : Nat) := by
    nlinarith
  have hhigh' : n.bmod (2 ^ (k + 1)) * (2 ^ b : Nat) < (2 ^ k : Nat) * (2 ^ b : Nat) :=
    Int.mul_lt_mul_of_pos_right hhigh hb
  refine (Int.bmod_eq_iff (by positivity)).2 ⟨?_, ?_, ?_⟩
  · rw [hwhole]
    omega
  · rw [hwhole]
    omega
  · rw [← sub_mul, pow_add, Nat.cast_mul]
    refine mul_dvd_mul_right ?_ _
    rw [Int.bmod_eq_self_sub_mul_bdiv]
    exact ⟨-n.bdiv (2 ^ (k + 1)), by ring⟩

theorem pow_dvd_pow_64 {bits : Nat} (h : bits ≤ 64) : ((2 ^ bits : Nat) : Int) ∣ (2 ^ 64 : Nat) :=
  Int.natCast_dvd_natCast.2 (Nat.pow_dvd_pow 2 h)

namespace Word

/-- The word of an integer at a width. -/
def encode (bits : Nat) (n : Int) : UInt64 := UInt64.ofNat (intBits bits n)

variable {bits : Nat}

theorem encode_congr {a b : Int} (h : a ≡ b [ZMOD (2 ^ bits : Nat)]) :
    encode bits a = encode bits b := by
  unfold encode intBits
  rw [h]

theorem encode_wrapInt (signed : Bool) (bits : Nat) (n : Int) :
    encode bits (wrapInt signed bits n) = encode bits n := encode_congr (wrapInt_modEq signed bits n)

variable (h : bits ≤ 64)

include h

theorem toNat_encode (n : Int) : ((encode bits n).toNat : Int) = n % (2 ^ bits : Nat) := by
  have hpos : (0 : Int) < (2 ^ bits : Nat) := by positivity
  have h₁ := Int.emod_nonneg n hpos.ne'
  have h₂ := Int.emod_lt_of_pos n hpos
  have hle : (2 ^ bits : Nat) ≤ 2 ^ 64 := Nat.pow_le_pow_right (by omega) h
  rw [encode, intBits, UInt64.toNat_ofNat', Nat.mod_eq_of_lt (by omega)]
  omega

theorem toNat_encode_eq_intBits (n : Int) : (encode bits n).toNat = intBits bits n := by
  have := toNat_encode h n
  unfold intBits
  omega

theorem encode_modEq (n : Int) : ((encode bits n).toNat : Int) ≡ n [ZMOD (2 ^ bits : Nat)] := by
  rw [toNat_encode h]
  exact Int.mod_modEq n _

theorem toNat_mask (w : UInt64) : (mask w bits).toNat = w.toNat % 2 ^ bits := by
  unfold mask
  split
  · obtain rfl : bits = 64 := by omega
    exact (Nat.mod_eq_of_lt w.toNat_lt).symm
  · have hb : bits < 64 := by omega
    have hbits : (UInt64.ofNat bits).toNat = bits := by
      rw [UInt64.toNat_ofNat']
      omega
    have hlt : 2 ^ bits < 2 ^ 64 := Nat.pow_lt_pow_right (by omega) hb
    have hone : (1 <<< UInt64.ofNat bits : UInt64).toNat = 2 ^ bits := by
      rw [UInt64.toNat_shiftLeft, hbits, Nat.mod_eq_of_lt hb, UInt64.toNat_one, Nat.shiftLeft_eq,
        Nat.one_mul]
      exact Nat.mod_eq_of_lt hlt
    have hsub : ((1 <<< UInt64.ofNat bits : UInt64) - 1).toNat = 2 ^ bits - 1 := by
      rw [UInt64.toNat_sub_of_le, hone]
      · rfl
      · rw [UInt64.le_iff_toNat_le, hone]
        exact Nat.one_le_two_pow
    rw [UInt64.toNat_and, hsub, Nat.and_two_pow_sub_one_eq_mod]

/-- A masked word is the word of every integer of its class. -/
theorem mask_eq {w : UInt64} {n : Int} (hw : (w.toNat : Int) ≡ n [ZMOD (2 ^ bits : Nat)]) :
    mask w bits = encode bits n := by
  apply UInt64.toNat_inj.1
  have := toNat_encode h n
  rw [← hw] at this
  rw [toNat_mask h]
  omega

theorem mask_ofInt (n : Int) : mask (ofInt n) bits = encode bits n := by
  refine mask_eq h ((?_ : _ ≡ _ [ZMOD (2 ^ 64 : Nat)]).of_dvd (pow_dvd_pow_64 h))
  have : ((ofInt n).toNat : Int) = n % (2 ^ 64 : Nat) := by
    simp only [ofInt, ← Int64.toNat_toBitVec, Int64.toBitVec_ofInt, BitVec.toNat_ofInt]
    omega
  rw [this]
  exact Int.mod_modEq n _

/-- The two's complement reading of a word. -/
theorem toInt_signExtend (hpos : 0 < bits) (w : UInt64) :
    (signExtend w bits).toInt = (w.toNat : Int).bmod (2 ^ bits) := by
  unfold signExtend
  split
  · obtain rfl : bits = 64 := by omega
    exact BitVec.toInt_eq_toNat_bmod _
  · have hb : bits < 64 := by omega
    have hleft : ((UInt64.ofNat (64 - bits)).toBitVec % 64).toNat = 64 - bits :=
      (show ∀ k < 64, ((UInt64.ofNat k).toBitVec % 64).toNat = k by decide) _ (by omega)
    have hright : ((UInt64.ofNat (64 - bits)).toInt64.toBitVec.smod 64).toNat = 64 - bits :=
      (show ∀ k < 64, ((UInt64.ofNat k).toInt64.toBitVec.smod 64).toNat = k by decide) _ (by omega)
    have hpow : (2 : Nat) ^ 64 = 2 ^ (bits + (64 - bits)) := by rw [Nat.add_sub_cancel' h]
    have hne : ((2 ^ (64 - bits) : Nat) : Int) ≠ 0 := by positivity
    rw [← Int64.toInt_toBitVec, Int64.toBitVec_shiftRight, BitVec.sshiftRight_eq', hright,
      BitVec.toInt_sshiftRight, Int.shiftRight_eq_div_pow, UInt64.toBitVec_toInt64,
      UInt64.toBitVec_shiftLeft, BitVec.shiftLeft_eq', hleft, BitVec.toInt_shiftLeft,
      Nat.shiftLeft_eq, Nat.cast_mul, hpow, bmod_mul_pow _ hpos, Int.mul_ediv_cancel _ hne]
    rfl

theorem toInt_signExtend_encode (hpos : 0 < bits) {n : Int} (hn : wrapInt true bits n = n) :
    (signExtend (encode bits n) bits).toInt = n := by
  rw [toInt_signExtend h hpos, toNat_encode h, Int.emod_bmod]
  exact hn

theorem toNat_encode_of_wrapInt {n : Int} (hn : wrapInt false bits n = n) :
    ((encode bits n).toNat : Int) = n := (toNat_encode h n).trans hn

/-- A width holds one integer of each class. -/
theorem encode_inj {signed : Bool} {a b : Int} (ha : wrapInt signed bits a = a)
    (hb : wrapInt signed bits b = b) : encode bits a = encode bits b ↔ a = b := by
  refine ⟨fun he => ?_, fun he => he ▸ rfl⟩
  have hmod : a ≡ b [ZMOD (2 ^ bits : Nat)] := by
    show a % _ = b % _
    rw [← toNat_encode h, ← toNat_encode h, he]
  rw [← ha, ← hb]
  exact wrapInt_congr hmod

theorem mask_encode {source : Nat} (hs : bits ≤ source) (hs' : source ≤ 64) (n : Int) :
    mask (encode source n) bits = encode bits n :=
  mask_eq h ((encode_modEq hs' n).of_dvd (Int.natCast_dvd_natCast.2 (Nat.pow_dvd_pow 2 hs)))

omit h in
theorem encode_of_le {target : Nat} (ht : bits ≤ target) {n : Int} (hn : wrapInt false bits n = n) :
    encode bits n = encode target n := by
  have hle : ((2 ^ bits : Nat) : Int) ≤ (2 ^ target : Nat) :=
    Int.ofNat_le.2 (Nat.pow_le_pow_right (by omega) ht)
  have hpos : (0 : Int) < (2 ^ bits : Nat) := by positivity
  have hn' : n % (2 ^ bits : Nat) = n := hn
  have h₁ := Int.emod_nonneg n hpos.ne'
  have h₂ := Int.emod_lt_of_pos n hpos
  unfold encode intBits
  rw [hn', Int.emod_eq_of_lt (b := (2 ^ target : Nat)) (by omega) (by omega)]

end Word

/-! ### Operations -/

namespace Machine

open Word
open Ir (BinOp IntPred)

theorem natCast_mod_modEq {bits : Nat} (h : bits ≤ 64) (n : Nat) :
    ((n % 2 ^ 64 : Nat) : Int) ≡ n [ZMOD (2 ^ bits : Nat)] := by
  have : ((n % 2 ^ 64 : Nat) : Int) ≡ n [ZMOD (2 ^ 64 : Nat)] := by
    rw [Int.natCast_mod]
    exact Int.mod_modEq _ _
  exact this.of_dvd (pow_dvd_pow_64 h)

theorem toNat_toUInt64_modEq {bits : Nat} (h : bits ≤ 64) (i : Int64) :
    (i.toUInt64.toNat : Int) ≡ i.toInt [ZMOD (2 ^ bits : Nat)] := by
  have : (i.toUInt64.toNat : Int) ≡ i.toInt [ZMOD (2 ^ 64 : Nat)] := by
    have hi : i.toInt = (i.toUInt64.toNat : Int).bmod (2 ^ 64) := BitVec.toInt_eq_toNat_bmod _
    rw [hi]
    exact Int.bmod_emod.symm
  exact this.of_dvd (pow_dvd_pow_64 h)

section

variable {bits : Nat} (h : bits ≤ 64)

include h

theorem intBinary_add (a b : Int) :
    intBinary .add bits (encode bits a) (encode bits b) = some (encode bits (a + b)) := by
  refine congrArg some (mask_eq h ?_)
  rw [UInt64.toNat_add]
  exact (natCast_mod_modEq h _).trans (by
    rw [Nat.cast_add]
    exact (encode_modEq h a).add (encode_modEq h b))

theorem intBinary_mul (a b : Int) :
    intBinary .mul bits (encode bits a) (encode bits b) = some (encode bits (a * b)) := by
  refine congrArg some (mask_eq h ?_)
  rw [UInt64.toNat_mul]
  exact (natCast_mod_modEq h _).trans (by
    rw [Nat.cast_mul]
    exact (encode_modEq h a).mul (encode_modEq h b))

theorem intBinary_sub (a b : Int) :
    intBinary .sub bits (encode bits a) (encode bits b) = some (encode bits (a - b)) := by
  refine congrArg some (mask_eq h ?_)
  have hlt := (encode bits b).toNat_lt
  have hzero : ((2 ^ 64 : Nat) : Int) ≡ 0 [ZMOD (2 ^ bits : Nat)] :=
    (Int.modEq_zero_iff_dvd).2 (pow_dvd_pow_64 h)
  rw [UInt64.toNat_sub]
  refine (natCast_mod_modEq h _).trans ?_
  rw [Nat.cast_add, Nat.cast_sub (by omega)]
  have := (hzero.sub (encode_modEq h b)).add (encode_modEq h a)
  simpa [sub_eq_neg_add] using this

theorem intBinary_udiv {a b : Int} (ha : wrapInt false bits a = a) (hb : wrapInt false bits b = b) :
    intBinary .udiv bits (encode bits a) (encode bits b) =
      if b = 0 then none else some (encode bits (a.tdiv b)) := by
  have hna := toNat_encode_of_wrapInt h ha
  have hnb := toNat_encode_of_wrapInt h hb
  have hzero : encode bits b = 0 ↔ b = 0 := by
    rw [← UInt64.toNat_inj, UInt64.toNat_zero]
    omega
  simp only [intBinary, intRaw, hzero]
  split
  · rfl
  · refine congrArg some (mask_eq h ?_)
    rw [UInt64.toNat_div, Int.natCast_div, hna, hnb, Int.tdiv_eq_ediv_of_nonneg (by omega)]

theorem intBinary_urem {a b : Int} (ha : wrapInt false bits a = a) (hb : wrapInt false bits b = b) :
    intBinary .urem bits (encode bits a) (encode bits b) =
      if b = 0 then none else some (encode bits (a.tmod b)) := by
  have hna := toNat_encode_of_wrapInt h ha
  have hnb := toNat_encode_of_wrapInt h hb
  have hzero : encode bits b = 0 ↔ b = 0 := by
    rw [← UInt64.toNat_inj, UInt64.toNat_zero]
    omega
  simp only [intBinary, intRaw, hzero]
  split
  · rfl
  · refine congrArg some (mask_eq h ?_)
    rw [UInt64.toNat_mod, Int.natCast_mod, hna, hnb, Int.tmod_eq_emod_of_nonneg (by omega)]

theorem intBinary_and (a b : Int) : intBinary .and bits (encode bits a) (encode bits b) =
    some (encode bits (intBits bits a &&& intBits bits b : Nat)) := by
  refine congrArg some (mask_eq h ?_)
  rw [UInt64.toNat_and, toNat_encode_eq_intBits h, toNat_encode_eq_intBits h]

theorem intBinary_or (a b : Int) : intBinary .or bits (encode bits a) (encode bits b) =
    some (encode bits (intBits bits a ||| intBits bits b : Nat)) := by
  refine congrArg some (mask_eq h ?_)
  rw [UInt64.toNat_or, toNat_encode_eq_intBits h, toNat_encode_eq_intBits h]

theorem intBinary_xor (a b : Int) : intBinary .xor bits (encode bits a) (encode bits b) =
    some (encode bits (intBits bits a ^^^ intBits bits b : Nat)) := by
  refine congrArg some (mask_eq h ?_)
  rw [UInt64.toNat_xor, toNat_encode_eq_intBits h, toNat_encode_eq_intBits h]

theorem intBinary_shl (a b : Int) : intBinary .shl bits (encode bits a) (encode bits b) =
    some (encode bits (if intBits bits b < bits then a * (2 ^ intBits bits b : Nat) else 0)) := by
  refine congrArg some (mask_eq h ?_)
  rw [toNat_encode_eq_intBits h]
  split
  · rename_i hlt
    have hmod : intBits bits b % 64 = intBits bits b := Nat.mod_eq_of_lt (by omega)
    rw [UInt64.toNat_shiftLeft, toNat_encode_eq_intBits h b, hmod, Nat.shiftLeft_eq]
    refine (natCast_mod_modEq h _).trans ?_
    rw [Nat.cast_mul]
    exact (encode_modEq h a).mul_right _
  · rfl

theorem intBinary_lshr {a : Int} (ha : wrapInt false bits a = a) (b : Int) :
    intBinary .lshr bits (encode bits a) (encode bits b) =
      some (encode bits (if intBits bits b < bits then a / (2 ^ intBits bits b : Nat) else 0)) := by
  have hna := toNat_encode_of_wrapInt h ha
  refine congrArg some (mask_eq h ?_)
  rw [toNat_encode_eq_intBits h b]
  split
  · rename_i hlt
    have hmod : intBits bits b % 64 = intBits bits b := Nat.mod_eq_of_lt (by omega)
    rw [UInt64.toNat_shiftRight, toNat_encode_eq_intBits h b, hmod, Nat.shiftRight_eq_div_pow, Int.natCast_div, hna]
  · rfl

theorem encode_lt_iff {a b : Int} (ha : wrapInt false bits a = a) (hb : wrapInt false bits b = b) :
    encode bits a < encode bits b ↔ a < b := by
  rw [UInt64.lt_iff_toNat_lt, ← Int.ofNat_lt, toNat_encode_of_wrapInt h ha,
    toNat_encode_of_wrapInt h hb]

theorem encode_le_iff {a b : Int} (ha : wrapInt false bits a = a) (hb : wrapInt false bits b = b) :
    encode bits a ≤ encode bits b ↔ a ≤ b := by
  rw [UInt64.le_iff_toNat_le, ← Int.ofNat_le, toNat_encode_of_wrapInt h ha,
    toNat_encode_of_wrapInt h hb]

variable (hpos : 0 < bits)

include hpos

theorem signExtend_lt_iff {a b : Int} (ha : wrapInt true bits a = a) (hb : wrapInt true bits b = b) :
    signExtend (encode bits a) bits < signExtend (encode bits b) bits ↔ a < b := by
  rw [Int64.lt_iff_toInt_lt, toInt_signExtend_encode h hpos ha, toInt_signExtend_encode h hpos hb]

theorem signExtend_le_iff {a b : Int} (ha : wrapInt true bits a = a) (hb : wrapInt true bits b = b) :
    signExtend (encode bits a) bits ≤ signExtend (encode bits b) bits ↔ a ≤ b := by
  rw [Int64.le_iff_toInt_le, toInt_signExtend_encode h hpos ha, toInt_signExtend_encode h hpos hb]

theorem mask_signExtend {target : Nat} (ht : target ≤ 64) {n : Int} (hn : wrapInt true bits n = n) :
    mask (signExtend (encode bits n) bits).toUInt64 target = encode target n := by
  refine mask_eq ht ((toNat_toUInt64_modEq ht _).trans ?_)
  rw [toInt_signExtend_encode h hpos hn]

theorem intBinary_ashr {a : Int} (ha : wrapInt true bits a = a) (b : Int) :
    intBinary .ashr bits (encode bits a) (encode bits b) =
      some (encode bits (a / (2 ^ min (intBits bits b) (bits - 1) : Nat))) := by
  have hamount : ∀ k < 64, ((Int64.ofNat k).toBitVec.smod 64).toNat = k := by decide
  refine congrArg some (mask_eq h ((toNat_toUInt64_modEq h _).trans ?_))
  rw [toNat_encode_eq_intBits h b, ← Int64.toInt_toBitVec, Int64.toBitVec_shiftRight,
    BitVec.sshiftRight_eq', hamount _ (by omega), BitVec.toInt_sshiftRight,
    Int.shiftRight_eq_div_pow, Int64.toInt_toBitVec, toInt_signExtend_encode h hpos ha]

theorem signExtend_eq_zero {b : Int} (hb : wrapInt true bits b = b) :
    signExtend (encode bits b) bits = 0 ↔ b = 0 := by
  rw [← Int64.toInt_inj, toInt_signExtend_encode h hpos hb, Int64.toInt_zero]

theorem intBinary_sdiv {a b : Int} (ha : wrapInt true bits a = a) (hb : wrapInt true bits b = b) :
    intBinary .sdiv bits (encode bits a) (encode bits b) =
      if b = 0 then none else some (encode bits (a.tdiv b)) := by
  simp only [intBinary, intRaw, signExtend_eq_zero h hpos hb]
  split
  · rfl
  · refine congrArg some (mask_eq h ((toNat_toUInt64_modEq h _).trans ?_))
    rw [Int64.toInt_div, toInt_signExtend_encode h hpos ha, toInt_signExtend_encode h hpos hb]
    exact (show _ ≡ _ [ZMOD (2 ^ 64 : Nat)] from Int.bmod_emod).of_dvd (pow_dvd_pow_64 h)

theorem intBinary_srem {a b : Int} (ha : wrapInt true bits a = a) (hb : wrapInt true bits b = b) :
    intBinary .srem bits (encode bits a) (encode bits b) =
      if b = 0 then none else some (encode bits (a.tmod b)) := by
  simp only [intBinary, intRaw, signExtend_eq_zero h hpos hb]
  split
  · rfl
  · refine congrArg some (mask_eq h ((toNat_toUInt64_modEq h _).trans ?_))
    rw [Int64.toInt_mod, toInt_signExtend_encode h hpos ha, toInt_signExtend_encode h hpos hb]

end

end Machine

end BlockForge
