import BlockForge.Proofs.Reference.Literals
import BlockForge.Proofs.Simulation.Folding

/-!
# Folding is exact

Folding computes in the 128-bit range. On operands of an integer type no operation leaves that range unnoticed,
so a literal expression folds to its exact value, and it does so exactly if all of its nodes have values in
the range of the type.
-/

namespace BlockForge.Simulation

open Lowering (Const FoldCause FoldError evalConst fitConst floorMod foldBinary foldInt inWide literalKind wrapToWidth)
open Reference (Foldable InRange OperatorDefined exactInt foldable_binary inRange_iff_wrapInt literalValue)
open Source (BinaryOp Expr)
open BlockForge.Types (IntWidth Layout Ty)

/-! ### The 128-bit range -/

theorem wideInRange_iff {z : Int} : Wide.inRange z = true ↔ InRange true 128 z := by
  have hwide : Wide.inRange z = true ↔ Wide.min ≤ z ∧ z ≤ Wide.max := by simp [Wide.inRange]
  rw [hwide, Wide.min, Wide.max, pow2_eq, InRange, if_pos rfl]
  omega

theorem wideWrap_eq_self {z : Int} (h : InRange true 128 z) : Wide.wrap z = z := by
  rw [Wide.wrap, pow2_eq]
  exact (inRange_iff_wrapInt (by decide)).1 h

/-- Integers of the range are equal if their 128-bit patterns are. -/
theorem eq_of_wide_modEq {y z : Int} (hy : InRange true 128 y) (hz : InRange true 128 z)
    (h : y ≡ z [ZMOD (2 ^ 128 : Nat)]) : y = z := by
  rw [← (inRange_iff_wrapInt (by decide)).1 hy, ← (inRange_iff_wrapInt (by decide)).1 hz]
  exact wrapInt_congr h

theorem wideBitwise_inRange (f : BitVec 128 → BitVec 128 → BitVec 128) (a b : Int) :
    InRange true 128 (Wide.bitwise f a b) := by
  unfold InRange Wide.bitwise
  rw [if_pos rfl]
  push_cast
  exact ⟨BitVec.le_toInt _, BitVec.toInt_lt⟩

section

variable {a b : Int} (ha : InRange true 128 a) (hb : InRange true 128 b)

include ha hb

theorem wideAnd_eq : Wide.bitwise (· &&& ·) a b = a.land b := by
  refine eq_of_wide_modEq (wideBitwise_inRange ..) ?_ ?_
  · rw [← Int.bitwise_and]
    exact bitwise_range (k := 127) _ ha hb
  · refine (wideAnd_modEq (le_refl _) a b).trans ?_
    rw [← intBits_land]
    exact intBits_modEq _ _

theorem wideOr_eq : Wide.bitwise (· ||| ·) a b = a.lor b := by
  refine eq_of_wide_modEq (wideBitwise_inRange ..) ?_ ?_
  · rw [← Int.bitwise_or]
    exact bitwise_range (k := 127) _ ha hb
  · refine (wideOr_modEq (le_refl _) a b).trans ?_
    rw [← intBits_lor]
    exact intBits_modEq _ _

theorem wideXor_eq : Wide.bitwise (· ^^^ ·) a b = a.xor b := by
  refine eq_of_wide_modEq (wideBitwise_inRange ..) ?_ ?_
  · rw [← Int.bitwise_xor]
    exact bitwise_range (k := 127) _ ha hb
  · refine (wideXor_modEq (le_refl _) a b).trans ?_
    rw [← intBits_xor]
    exact intBits_modEq _ _

end

/-- A masked integer keeps its low bits only. -/
theorem wideMask_range {bits : Nat} (hle : bits ≤ 64) (z : Int) :
    0 ≤ Wide.bitwise (· &&& ·) z ((2 ^ bits : Nat) - 1) ∧
      Wide.bitwise (· &&& ·) z ((2 ^ bits : Nat) - 1) < (2 ^ bits : Nat) := by
  have hpow : 2 ^ bits ≤ 2 ^ 64 := Nat.pow_le_pow_right (by omega) hle
  have hpos : 0 < 2 ^ bits := by positivity
  generalize 2 ^ bits = p at hpow hpos
  have hones : (p : Int) - 1 = (p - 1 : Nat) := by omega
  have hand : (BitVec.ofInt 128 z &&& BitVec.ofInt 128 ((p - 1 : Nat) : Int)).toNat ≤ p - 1 := by
    rw [BitVec.toNat_and, BitVec.ofInt_natCast, BitVec.toNat_ofNat]
    exact Nat.and_le_right.trans (Nat.mod_le _ _)
  rw [hones, Wide.bitwise, BitVec.toInt_eq_toNat_of_lt (by omega)]
  omega

/-- Reducing to a width, with the operations written out. -/
theorem wrapToWidth_unfold {bits : Nat} (hpos : 0 < bits) (hle : bits ≤ 64) (z : Int) (signed : Bool) :
    wrapToWidth z bits signed =
      if signed ∧ ((2 ^ (bits - 1) : Nat) : Int) ≤ Wide.bitwise (· &&& ·) z ((2 ^ bits : Nat) - 1) then
        Wide.bitwise (· &&& ·) z ((2 ^ bits : Nat) - 1) - (2 ^ bits : Nat)
      else Wide.bitwise (· &&& ·) z ((2 ^ bits : Nat) - 1) := by
  have hpow : 2 ^ bits ≤ 2 ^ 64 := Nat.pow_le_pow_right (by omega) hle
  have hpred : Wide.widthPred bits = bits - 1 := by rw [Wide.widthPred, if_neg (by omega)]
  have hmask := wideMask_range hle z
  have hones : Wide.wrap (((2 ^ bits : Nat) : Int) - 1) = (2 ^ bits : Nat) - 1 := by
    generalize 2 ^ bits = p at hpow
    exact wideWrap_eq (by omega) (by omega)
  unfold wrapToWidth
  rw [hpred, shiftOne_eq (by omega : bits - 1 ≤ 64), shiftOne_eq hle, hones]
  dsimp only
  generalize 2 ^ bits = p at hpow hmask
  rw [wideWrap_eq (by omega) (by omega)]

theorem wrapToWidth_eq {bits : Nat} (hpos : 0 < bits) (hle : bits ≤ 64) (z : Int) (signed : Bool) :
    wrapToWidth z bits signed = wrapInt signed bits z := by
  have hhalf : 2 ^ bits = 2 * 2 ^ (bits - 1) := by
    rw [← Nat.pow_succ']
    congr 1
    omega
  have hmask := wideMask_range hle z
  have hrange : InRange signed bits (wrapToWidth z bits signed) := by
    rw [wrapToWidth_unfold hpos hle]
    unfold InRange
    generalize Wide.bitwise (· &&& ·) z ((2 ^ bits : Nat) - 1) = m at hmask
    generalize 2 ^ bits = p at hhalf hmask
    cases signed with
    | false => simpa using hmask
    | true =>
      simp only [if_true, true_and]
      split <;> omega
  rw [← (inRange_iff_wrapInt hpos).1 hrange]
  exact wrapInt_congr (wrapToWidth_modEq hle z signed)

/-! ### Operators -/

theorem inWide_eq_ok_iff {y z : Int} (hz : InRange true 128 z) : inWide y = .ok z ↔ z = y := by
  unfold inWide
  split
  · rw [Except.ok.injEq, eq_comm]
  · rename_i hy
    refine ⟨fun h => (nomatch h), ?_⟩
    rintro rfl
    exact absurd (wideInRange_iff.2 hz) hy

section

variable {l : Layout} {t : Ty} {bits : Nat} (h : Integral l t bits)

include h

theorem Integral.wide {z : Int} (hz : InRange t.isSignedInt bits z) : -(2 ^ 63 : Nat) ≤ z ∧ z < (2 ^ 64 : Nat) := by
  have hle := h.le
  have hpow : 2 ^ bits ≤ 2 ^ 64 := Nat.pow_le_pow_right (by omega) hle
  have hhalf : 2 ^ (bits - 1) ≤ 2 ^ 63 := Nat.pow_le_pow_right (by omega) (by omega)
  unfold InRange at hz
  split at hz <;> omega

theorem Integral.inRange_wide {z : Int} (hz : InRange t.isSignedInt bits z) : InRange true 128 z := by
  have := h.wide hz
  simp only [InRange, if_true]
  omega

/-- A shift by less than the width loses no bits. -/
theorem Integral.shift_inRange {a : Int} (ha : InRange t.isSignedInt bits a) {n : Nat} (hn : n < bits) :
    InRange true 128 (a * (2 ^ n : Nat)) := by
  have hle := h.le
  have hpow : (0 : Int) < (2 ^ n : Nat) := by positivity
  have hbound : ∀ {k : Nat}, k + n ≤ 127 → -(2 ^ k : Nat) ≤ a → a < (2 ^ k : Nat) →
      InRange true 128 (a * (2 ^ n : Nat)) := by
    intro k hk hlow hhigh
    have hmul : ((2 ^ k : Nat) : Int) * (2 ^ n : Nat) ≤ (2 ^ 127 : Nat) := by
      rw [← Nat.cast_mul, ← pow_add]
      exact Int.ofNat_le.2 (Nat.pow_le_pow_right (by omega) hk)
    have h₁ := mul_le_mul_of_nonneg_right hlow hpow.le
    have h₂ := mul_lt_mul_of_pos_right hhigh hpow
    rw [neg_mul] at h₁
    simp only [InRange, if_true]
    omega
  unfold InRange at ha
  split at ha
  · exact hbound (k := bits - 1) (by omega) ha.1 ha.2
  · exact hbound (k := bits) (by omega) (by omega) ha.2

/-- On operands of the type, an operator folds to its exact value. -/
theorem foldInt_eq_ok_iff {op : BinaryOp} (hop : op.isArithmetic = true ∨ op.isBitwise = true) {a b v : Int}
    (ha : InRange t.isSignedInt bits a) (hb : InRange t.isSignedInt bits b) (hv : InRange t.isSignedInt bits v) :
    foldInt l t op a b = .ok v ↔ OperatorDefined op bits b ∧ v = exactInt op t.isSignedInt bits a b := by
  have hle := h.le
  have hbits : (t.intWidth?.map l.intBits).getD 64 = bits := by rw [h.width]; rfl
  have hwa := h.inRange_wide ha
  have hwb := h.inRange_wide hb
  have hwv := h.inRange_wide hv
  -- an operator that is defined everywhere, a division and a shift
  have htotal : ∀ {z : Int}, OperatorDefined op bits b → (Except.ok z = (.ok v : Except FoldCause Int) ↔
      OperatorDefined op bits b ∧ v = z) := by
    intro z hd
    rw [Except.ok.injEq, eq_comm (a := z)]
    exact (and_iff_right hd).symm
  have hdivision : ∀ {z : Int}, op.isDivision = true → op.isShift = false →
      ((if b = 0 then Except.error (.divisionByZero op) else .ok z) = (.ok v : Except FoldCause Int) ↔
        OperatorDefined op bits b ∧ v = z) := by
    intro z hdiv hshift
    split
    · rename_i hz
      exact ⟨fun h => (nomatch h), fun h => absurd hz (h.1.1 hdiv)⟩
    · rename_i hz
      exact htotal ⟨fun _ => hz, by simp [hshift]⟩
  have hshift : ∀ {y z : Int}, op.isDivision = false → op.isShift = true → (0 ≤ b → b < bits → y = z) →
      ((if b < 0 ∨ (bits : Int) ≤ b then Except.error (.shiftAmount b) else .ok y) =
        (.ok v : Except FoldCause Int) ↔ OperatorDefined op bits b ∧ v = z) := by
    intro y z hdiv hs hy
    split
    · rename_i hz
      exact ⟨fun h => (nomatch h), fun h => absurd (h.1.2 hs) (by omega)⟩
    · rename_i hz
      rw [hy (by omega) (by omega)]
      exact htotal ⟨by simp [hdiv], fun _ => by omega⟩
  have hamount : 0 ≤ b → b < bits → b.toNat % 128 = b.toNat ∧ b.toNat < bits := by omega
  unfold foldInt
  dsimp only
  rw [hbits]
  cases op <;> simp only [BinaryOp.isArithmetic, BinaryOp.isBitwise, Bool.false_eq_true, or_self] at hop <;>
    dsimp only [exactInt]
  case add | sub | mul =>
    rw [inWide_eq_ok_iff hwv]
    simp [OperatorDefined, BinaryOp.isDivision, BinaryOp.isShift]
  case div | rem => exact hdivision rfl rfl
  case mod =>
    rw [show floorMod a b = a.fmod b from (fmod_eq_adjusted a b).symm]
    exact hdivision rfl rfl
  case bitAnd =>
    rw [wideAnd_eq hwa hwb]
    exact htotal (by simp [OperatorDefined, BinaryOp.isDivision, BinaryOp.isShift])
  case bitOr =>
    rw [wideOr_eq hwa hwb]
    exact htotal (by simp [OperatorDefined, BinaryOp.isDivision, BinaryOp.isShift])
  case bitXor =>
    rw [wideXor_eq hwa hwb]
    exact htotal (by simp [OperatorDefined, BinaryOp.isDivision, BinaryOp.isShift])
  case shl =>
    refine hshift rfl rfl fun h₀ h₁ => ?_
    obtain ⟨hmod, hlt⟩ := hamount h₀ h₁
    rw [hmod, pow2_eq, wideWrap_eq_self (h.shift_inRange ha hlt), wrapToWidth_eq h.pos hle]
  case shr =>
    refine hshift rfl rfl fun h₀ h₁ => ?_
    rw [(hamount h₀ h₁).1, pow2_eq]

/-! ### Expressions -/

theorem fitConst_int_iff {z v : Int} :
    fitConst l t (.int z) = .ok (.int v) ↔ InRange t.isSignedInt bits z ∧ v = z := by
  constructor
  · intro hz
    obtain ⟨hc, hr⟩ := fitConst_eq_ok h hz
    cases hc
    exact ⟨(inRange_iff_wrapInt h.pos).2 hr, rfl⟩
  · rintro ⟨hz, rfl⟩
    have hw := h.width
    cases t with
    | signed w =>
      cases hw
      simp only [fitConst, Layout.intRange?, signedRange_eq h.pos h.le]
      rw [if_neg]
      simp only [InRange, Ty.isSignedInt, if_true] at hz
      omega
    | unsigned w =>
      cases hw
      simp only [fitConst, Layout.intRange?, unsignedRange_eq h.le]
      rw [if_neg]
      simp only [InRange, Ty.isSignedInt, Bool.false_eq_true, if_false] at hz
      omega
    | _ => cases hw

omit h in
theorem locate_eq_ok_iff {α : Type} {s : Source.Span} {leaf : Bool} {r : Except FoldCause α} {a : α} :
    FoldError.locate s leaf r = .ok a ↔ r = .ok a := by
  refine ⟨Lowering.locate_eq_ok, ?_⟩
  rintro rfl
  rfl

omit h in
theorem literalKind_sign {s : Source.Span} {op : Source.UnaryOp} {e : Expr} {k : Int}
    (hk : literalKind (.unary s op e) = some (.int k)) :
    (op = .neg ∨ op = .plus) ∧ ∃ i, literalKind e = some (.int i) := by
  cases op with
  | neg =>
    obtain ⟨kind, hkind, hint⟩ := Option.map_eq_some_iff.1 hk
    cases kind with
    | float => cases hint
    | int i => exact ⟨.inl rfl, i, hkind⟩
  | plus => exact ⟨.inr rfl, k, hk⟩
  | not => cases hk
  | bitNot => cases hk

omit h in
theorem literalKind_operator {s : Source.Span} {op : BinaryOp} {a b : Expr} {k : Int}
    (hk : literalKind (.binary s op a b) = some (.int k)) : op.isArithmetic = true ∨ op.isBitwise = true := by
  simp only [literalKind] at hk
  split at hk
  · rename_i hop
    simpa using hop
  · cases hk

/-- A literal expression folds at a type if all of its nodes fit there, and then to its exact value. -/
theorem evalConst_eq_ok_iff {e : Expr} {k : Int} (hk : literalKind e = some (.int k)) (v : Int) :
    evalConst l t e = .ok (.int v) ↔ Foldable t.isSignedInt bits e ∧ v = literalValue t.isSignedInt bits e := by
  -- an operand that does not fold is not foldable
  have hfails : ∀ {e : Expr} {err : FoldError}, evalConst l t e = .error err →
      (∀ v, evalConst l t e = .ok (.int v) ↔ Foldable t.isSignedInt bits e ∧ v = literalValue t.isSignedInt bits e) →
      ¬Foldable t.isSignedInt bits e := by
    intro e err he hiff hf
    have := (hiff _).2 ⟨hf, rfl⟩
    rw [he] at this
    cases this
  fun_induction evalConst l t e generalizing k v with
  | case1 s u =>
    rw [locate_eq_ok_iff, intLeaf_eq h, fitConst_int_iff h]
    simp [Foldable, Reference.judged, Reference.RootDefined, literalValue]
  | case2 => cases hk
  | case3 s s' u =>
    rw [locate_eq_ok_iff, intLeaf_eq h, fitConst_int_iff h]
    simp [Foldable, Reference.judged, Reference.RootDefined, literalValue]
  | case4 s op e hne err he ih =>
    obtain ⟨-, i, hi⟩ := literalKind_sign hk
    refine ⟨fun h => (by cases h), fun hf => ?_⟩
    exact absurd ((Reference.foldable_unary hne).1 hf.1).2 (hfails he (ih hi))
  | case5 s op e hne c hc ih =>
    obtain ⟨hop, i, hi⟩ := literalKind_sign hk
    obtain ⟨a, rfl, ha⟩ := exists_int_of_evalConst h hi hc
    obtain ⟨hf, rfl⟩ := (ih hi a).1 hc
    rw [locate_eq_ok_iff, Reference.foldable_unary hne, and_iff_left hf]
    rcases hop with rfl | rfl
    · rw [if_pos rfl, Const.neg, wideWrap_neg h ha, fitConst_int_iff h]
      rfl
    · rw [if_neg (by simp), fitConst_int_iff h]
      rfl
  | case6 s op a b err he ih =>
    obtain ⟨i, j, hi, hj⟩ := literalKind_operands hk
    refine ⟨fun h => (by cases h), fun hf => ?_⟩
    exact absurd (foldable_binary.1 hf.1).2.1 (hfails he (ih hi))
  | case7 s op a b ca hca err he iha ihb =>
    obtain ⟨i, j, hi, hj⟩ := literalKind_operands hk
    refine ⟨fun h => (by cases h), fun hf => ?_⟩
    exact absurd (foldable_binary.1 hf.1).2.2 (hfails he (ihb hj))
  | case8 s op a b ca hca cb hcb iha ihb =>
    obtain ⟨i, j, hi, hj⟩ := literalKind_operands hk
    obtain ⟨m, rfl, -⟩ := exists_int_of_evalConst h hi hca
    obtain ⟨n, rfl, -⟩ := exists_int_of_evalConst h hj hcb
    obtain ⟨hfa, rfl⟩ := (iha hi m).1 hca
    obtain ⟨hfb, rfl⟩ := (ihb hj n).1 hcb
    rw [locate_eq_ok_iff, foldBinary, foldable_binary, and_iff_left (And.intro hfa hfb)]
    have hfold : ∀ {z : Int}, InRange t.isSignedInt bits z → _ := fun hz =>
      foldInt_eq_ok_iff h (literalKind_operator hk) hfa.inRange hfb.inRange hz
    constructor
    · intro hbind
      cases hz : foldInt l t op (literalValue t.isSignedInt bits a) (literalValue t.isSignedInt bits b) with
      | error err =>
        rw [hz] at hbind
        cases hbind
      | ok z =>
        rw [hz] at hbind
        obtain ⟨hr, rfl⟩ := (fitConst_int_iff h).1 hbind
        obtain ⟨hd, rfl⟩ := (hfold hr).1 hz
        exact ⟨⟨hr, hd⟩, rfl⟩
    · rintro ⟨⟨hr, hd⟩, rfl⟩
      rw [(hfold hr).2 ⟨hd, rfl⟩]
      exact (fitConst_int_iff h).2 ⟨hr, rfl⟩
  | case9 e h₁ h₂ h₃ h₄ h₅ =>
    cases e with
    | int s u => exact absurd rfl (h₁ s u)
    | float s u => exact absurd rfl (h₂ s u)
    | unary s op e => exact absurd rfl (h₄ s op e)
    | binary s op a b => exact absurd rfl (h₅ s op a b)
    | _ => cases hk

end

/-! ### Overflow -/

/-! Folding again, but with nothing for a result where an operation of the 128-bit range overflows, shifts by
too much, loses bits in a shift, or divides by zero. -/

namespace Trapping

/-- A result of the range. -/
def wide (z : Int) : Option Int := if Wide.inRange z then some z else none

def shiftLeft (a : Int) (n : Nat) : Option Int := if n < 128 then wide (a * (2 ^ n : Nat)) else none

def shiftRight (a : Int) (n : Nat) : Option Int := if n < 128 then some (a / (2 ^ n : Nat)) else none

def quotient (a b : Int) : Option Int := if b = 0 then none else wide (a.tdiv b)

/-- The remainder of a division, which overflows where its quotient does. -/
def remainder (a b : Int) : Option Int := (quotient a b).map fun _ => a.tmod b

/-- A width less one. -/
def lessOne (n : Nat) : Option Nat := if n = 0 then none else some (n - 1)

/-- The least and greatest value of an integer type. -/
def intRange? (l : Layout) : Ty → Option (Option (Int × Int))
  | .signed w => do
    let half ← shiftLeft 1 (← lessOne (l.intBits w))
    return some (← wide (-half), ← wide (half - 1))
  | .unsigned w => do
    let top ← shiftLeft 1 (l.intBits w)
    return some (0, ← wide (top - 1))
  | _ => return none

/-- Reduces an integer to a width by wrapping. -/
def wrapToWidth (value : Int) (bits : Nat) (signed : Bool) : Option Int := do
  let top ← shiftLeft 1 bits
  let half ← shiftLeft 1 (← lessOne bits)
  let masked := Wide.bitwise (· &&& ·) value (← wide (top - 1))
  if signed ∧ half ≤ masked then wide (masked - top) else return masked

/-- The remainder that has the sign of the divisor. -/
def floorMod (a b : Int) : Option Int := do
  let r ← remainder a b
  if r ≠ 0 ∧ (decide (r < 0) ≠ decide (b < 0)) then wide (r + b) else return r

/-- An operator on integers of a type. Sums, differences and products are checked, so their overflow is a
failure of folding. -/
def foldInt (l : Layout) (t : Ty) (op : BinaryOp) (a b : Int) : Option (Except FoldCause Int) :=
  let bits := (t.intWidth?.map l.intBits).getD 64
  match op with
  | .add => some (inWide (a + b))
  | .sub => some (inWide (a - b))
  | .mul => some (inWide (a * b))
  | .div => if b = 0 then some (.error (.divisionByZero op)) else .ok <$> quotient a b
  | .rem => if b = 0 then some (.error (.divisionByZero op)) else .ok <$> remainder a b
  | .mod => if b = 0 then some (.error (.divisionByZero op)) else .ok <$> floorMod a b
  | .bitAnd => some (.ok (Wide.bitwise (· &&& ·) a b))
  | .bitOr => some (.ok (Wide.bitwise (· ||| ·) a b))
  | .bitXor => some (.ok (Wide.bitwise (· ^^^ ·) a b))
  | .shl =>
    if b < 0 ∨ (bits : Int) ≤ b then some (.error (.shiftAmount b))
    else do return .ok (← wrapToWidth (← shiftLeft a b.toNat) bits t.isSignedInt)
  | .shr =>
    if b < 0 ∨ (bits : Int) ≤ b then some (.error (.shiftAmount b)) else .ok <$> shiftRight a b.toNat
  | _ => some (.error (.notInteger op))

def foldBinary (l : Layout) (t : Ty) (op : BinaryOp) : Const → Const → Option (Except FoldCause Const)
  | .int a, .int b => Except.map .int <$> foldInt l t op a b
  | a, b => some (Lowering.foldBinary l t op a b)

/-- Checks that a constant fits the type. -/
def fitConst (l : Layout) (t : Ty) : Const → Option (Except FoldCause Const)
  | .int v => do
    match ← intRange? l t with
    | some (lo, hi) => return if v < lo ∨ hi < v then .error (.outOfRange v) else .ok (.int v)
    | none => return .ok (.int v)
  | c => some (Lowering.fitConst l t c)

/-- A constant under a sign. -/
def sign (op : Source.UnaryOp) : Const → Option Const
  | .int v => if op = .neg then .int <$> wide (-v) else some (.int v)
  | c => some (if op = .neg then c.neg else c)

/-- The value of a literal expression at a type. -/
def evalConst (l : Layout) (t : Ty) : Expr → Option (Except FoldError Const)
  | .int s v => FoldError.locate s true <$> fitConst l t (Lowering.intLeaf t v.toNat)
  | .float s bits => FoldError.locate s false <$> fitConst l t (.float bits)
  | .unary s .neg (.int _ v) => do
    FoldError.locate s true <$> fitConst l t (Lowering.intLeaf t (← wide (-(v.toNat : Int))))
  | .unary s op e => do
    match ← evalConst l t e with
    | .error err => return .error err
    | .ok c => FoldError.locate s true <$> fitConst l t (← sign op c)
  | .binary s op a b => do
    match ← evalConst l t a with
    | .error err => return .error err
    | .ok ca =>
      match ← evalConst l t b with
      | .error err => return .error err
      | .ok cb =>
        match ← foldBinary l t op ca cb with
        | .error cause => return .error ⟨cause, s, false⟩
        | .ok c => FoldError.locate s false <$> fitConst l t c
  | e => return .error ⟨.outOfRange 0, e.span, false⟩

theorem wide_eq {z : Int} (h : InRange true 128 z) : wide z = some z := if_pos (wideInRange_iff.2 h)

theorem shiftLeft_one {n : Nat} (h : n ≤ 64) : shiftLeft 1 n = some ((2 ^ n : Nat) : Int) := by
  have hpow : 2 ^ n ≤ 2 ^ 64 := Nat.pow_le_pow_right (by omega) h
  rw [shiftLeft, if_pos (by omega), one_mul]
  refine wide_eq ?_
  simp only [InRange, if_true]
  generalize 2 ^ n = p at hpow
  omega

theorem lessOne_eq {n : Nat} (h : 0 < n) : lessOne n = some (n - 1) := if_neg (by omega)

theorem wrapToWidth_eq {bits : Nat} (hpos : 0 < bits) (hle : bits ≤ 64) (z : Int) (signed : Bool) :
    wrapToWidth z bits signed = some (Lowering.wrapToWidth z bits signed) := by
  have hpow : 2 ^ bits ≤ 2 ^ 64 := Nat.pow_le_pow_right (by omega) hle
  have hmask := wideMask_range hle z
  have hone : InRange true 128 (((2 ^ bits : Nat) : Int) - 1) := by
    simp only [InRange, if_true]
    generalize 2 ^ bits = p at hpow
    omega
  rw [wrapToWidth_unfold hpos hle, wrapToWidth, lessOne_eq hpos, shiftLeft_one hle]
  simp only [Option.bind_eq_bind, Option.bind_some, shiftLeft_one (show bits - 1 ≤ 64 by omega), wide_eq hone]
  split
  · refine wide_eq ?_
    simp only [InRange, if_true]
    generalize 2 ^ bits = p at hpow hmask
    omega
  · rfl

section

variable {l : Layout} {t : Ty} {bits : Nat} (h : Integral l t bits)

include h

theorem intRange?_eq : intRange? l t = some (l.intRange? t) := by
  have hw := h.width
  have hpos := h.pos
  have hle := h.le
  have hpow : 2 ^ bits ≤ 2 ^ 64 := Nat.pow_le_pow_right (by omega) hle
  have hhalf : 2 ^ (bits - 1) ≤ 2 ^ 64 := Nat.pow_le_pow_right (by omega) (by omega)
  have hwide : ∀ {z : Int}, -(2 ^ 64 : Nat) ≤ z → z ≤ (2 ^ 64 : Nat) → wide z = some z := by
    intro z h₁ h₂
    refine wide_eq ?_
    simp only [InRange, if_true]
    omega
  cases t with
  | signed w =>
    cases hw
    simp only [Layout.intRange?, signedRange_eq hpos hle, intRange?, lessOne_eq hpos, Option.bind_eq_bind,
      Option.bind_some, shiftLeft_one (show l.intBits w - 1 ≤ 64 by omega)]
    generalize 2 ^ (l.intBits w - 1) = p at hhalf
    rw [hwide (by omega) (by omega), hwide (by omega) (by omega)]
    rfl
  | unsigned w =>
    cases hw
    simp only [Layout.intRange?, unsignedRange_eq hle, intRange?, shiftLeft_one hle, Option.bind_eq_bind,
      Option.bind_some]
    generalize 2 ^ l.intBits w = p at hpow
    rw [hwide (by omega) (by omega)]
    rfl
  | _ => cases hw

theorem fitConst_eq (c : Const) : fitConst l t c = some (Lowering.fitConst l t c) := by
  cases c with
  | float u => rfl
  | int v =>
    simp only [fitConst, intRange?_eq h, Lowering.fitConst, Option.bind_eq_bind, Option.bind_some]
    cases l.intRange? t <;> rfl

theorem quotient_eq {a b : Int} (ha : InRange t.isSignedInt bits a) (hb : b ≠ 0) : quotient a b = some (a.tdiv b) := by
  have hwide := h.wide ha
  have habs : (a.tdiv b).natAbs ≤ a.natAbs := by
    rw [Int.natAbs_tdiv]
    exact Nat.div_le_self _ _
  rw [quotient, if_neg hb]
  refine wide_eq ?_
  simp only [InRange, if_true]
  omega

theorem floorMod_eq {a b : Int} (ha : InRange t.isSignedInt bits a) (hb : InRange t.isSignedInt bits b)
    (hz : b ≠ 0) : floorMod a b = some (Lowering.floorMod a b) := by
  have hwa := h.wide ha
  have hwb := h.wide hb
  have hbetween := tmod_between a b
  simp only [floorMod, remainder, quotient_eq h ha hz, Option.map_some, Option.bind_eq_bind, Option.bind_some,
    Lowering.floorMod]
  split
  · refine wide_eq ?_
    simp only [InRange, if_true]
    omega
  · rfl

/-- On operands of the type, no operation overflows unnoticed. -/
theorem foldInt_eq {op : BinaryOp} {a b : Int} (ha : InRange t.isSignedInt bits a)
    (hb : InRange t.isSignedInt bits b) : foldInt l t op a b = some (Lowering.foldInt l t op a b) := by
  have hle := h.le
  have hbits : (t.intWidth?.map l.intBits).getD 64 = bits := by rw [h.width]; rfl
  unfold foldInt Lowering.foldInt
  rw [hbits]
  cases op <;> dsimp only
  case div =>
    split
    · rfl
    · rename_i hz
      rw [quotient_eq h ha hz]
      rfl
  case rem =>
    split
    · rfl
    · rename_i hz
      rw [remainder, quotient_eq h ha hz]
      rfl
  case mod =>
    split
    · rfl
    · rename_i hz
      rw [floorMod_eq h ha hb hz]
      rfl
  case shl =>
    split
    · rfl
    · rename_i hz
      have hlt : b.toNat < bits := by omega
      have hrange := h.shift_inRange ha hlt
      rw [shiftLeft, if_pos (by omega), wide_eq hrange, Nat.mod_eq_of_lt (by omega), pow2_eq,
        wideWrap_eq_self hrange]
      simp only [Option.bind_eq_bind, Option.bind_some, wrapToWidth_eq h.pos hle]
      rfl
  case shr =>
    split
    · rfl
    · rename_i hz
      rw [shiftRight, if_pos (by omega), Nat.mod_eq_of_lt (by omega), pow2_eq]
      rfl

theorem sign_eq (op : Source.UnaryOp) {c : Const} (hc : ∀ a, c = .int a → InRange t.isSignedInt bits a) :
    sign op c = some (if op = .neg then c.neg else c) := by
  cases c with
  | float u => rfl
  | int a =>
    have hwide := h.wide (hc a rfl)
    have hrange : InRange true 128 (-a) := by
      simp only [InRange, if_true]
      omega
    rw [sign, wide_eq hrange, Const.neg, wideWrap_eq_self hrange]
    split <;> rfl

theorem foldBinary_eq {op : BinaryOp} {c d : Const} (hc : ∀ a, c = .int a → InRange t.isSignedInt bits a)
    (hd : ∀ a, d = .int a → InRange t.isSignedInt bits a) :
    foldBinary l t op c d = some (Lowering.foldBinary l t op c d) := by
  cases c <;> cases d
  case int.int a b => rw [foldBinary, foldInt_eq h (hc a rfl) (hd b rfl)]; rfl
  all_goals rfl

/-- Folding at an integer type never overflows unnoticed, whatever the expression. -/
theorem evalConst_eq (e : Expr) : evalConst l t e = some (Lowering.evalConst l t e) := by
  have hrange : ∀ {e : Expr} {c : Const}, Lowering.evalConst l t e = .ok c →
      ∀ a, c = .int a → InRange t.isSignedInt bits a := by
    rintro e _ he a rfl
    exact (inRange_iff_wrapInt h.pos).2 (wrapInt_of_evalConst h he)
  fun_induction Lowering.evalConst l t e with
  | case1 s u => rw [evalConst, fitConst_eq h]; rfl
  | case2 s u => rw [evalConst, fitConst_eq h]; rfl
  | case3 s s' u =>
    have hwide : InRange true 128 (-(u.toNat : Int)) := by
      have := u.toNat_lt
      simp only [InRange, if_true]
      omega
    rw [evalConst, wide_eq hwide, Option.bind_eq_bind, Option.bind_some, fitConst_eq h]
    rfl
  | case4 s op e hne err he ih => rw [evalConst.eq_4 l t s op e hne, ih, he]; rfl
  | case5 s op e hne c hc ih =>
    rw [evalConst.eq_4 l t s op e hne, ih, hc, Option.bind_eq_bind, Option.bind_some]
    simp only [sign_eq h op (hrange hc), Option.bind_eq_bind, Option.bind_some, fitConst_eq h]
    rfl
  | case6 s op a b err he ih => rw [evalConst, ih, he]; rfl
  | case7 s op a b ca hca err he iha ihb =>
    rw [evalConst, iha, hca, ihb, he]
    rfl
  | case8 s op a b ca hca cb hcb iha ihb =>
    rw [evalConst, iha, hca, ihb, hcb]
    simp only [Option.bind_eq_bind, Option.bind_some, foldBinary_eq h (hrange hca) (hrange hcb)]
    cases Lowering.foldBinary l t op ca cb with
    | error cause => rfl
    | ok c =>
      simp only [fitConst_eq h]
      rfl
  | case9 e h₁ h₂ h₃ h₄ h₅ =>
    cases e with
    | int s u => exact absurd rfl (h₁ s u)
    | float s u => exact absurd rfl (h₂ s u)
    | unary s op e => exact absurd rfl (h₄ s op e)
    | binary s op a b => exact absurd rfl (h₅ s op a b)
    | _ => rfl

end

end Trapping

/-- Folding is exact. An integer literal expression folds at an integer type if and only if every judged node
has its value in range and is defined, and then to its exact value; and no operation on the way overflows
unnoticed, whatever the expression. -/
theorem folding_exact {l : Layout} (hl : l.pointerBits ∈ [16, 32, 64]) {t : Ty} {width : IntWidth}
    (ht : t.intWidth? = some width) :
    (∀ {e : Expr} {k : Int}, literalKind e = some (.int k) → ∀ v : Int,
      evalConst l t e = .ok (.int v) ↔
        Foldable t.isSignedInt (l.intBits width) e ∧ v = literalValue t.isSignedInt (l.intBits width) e) ∧
    ∀ e : Expr, Trapping.evalConst l t e = some (evalConst l t e) := by
  have h := integral_of_width hl ht
  exact ⟨fun hk v => evalConst_eq_ok_iff h hk v, Trapping.evalConst_eq h⟩

/-- The least 64-bit integer, divided by minus one. -/
def overflowingTree : Expr :=
  .binary default .div (.unary default .neg (.int default 9223372036854775808)) (.unary default .neg (.int default 1))

/-- The least 64-bit integer folds, though its literal without the sign is out of range; its quotient by minus
one does not. -/
theorem folding_exact_minimum :
    evalConst ⟨64⟩ (.signed .w64) (.unary default .neg (.int default 9223372036854775808)) =
      .ok (.int (-9223372036854775808)) ∧
    (∀ v, evalConst ⟨64⟩ (.signed .w64) overflowingTree ≠ .ok (.int v)) ∧
    Trapping.evalConst ⟨64⟩ (.signed .w64) overflowingTree =
      some (evalConst ⟨64⟩ (.signed .w64) overflowingTree) := by
  obtain ⟨hexact, htraps⟩ := folding_exact (l := ⟨64⟩) (by decide) (t := .signed .w64) rfl
  refine ⟨(hexact (k := -9223372036854775808) rfl _).2 (by decide +kernel), fun v hv => ?_, htraps _⟩
  have hfold := ((hexact (k := 0) rfl v).1 hv).1
  revert hfold
  decide +kernel

end BlockForge.Simulation
