import BlockForge.Proofs.Lowering.Operators
import BlockForge.Proofs.Simulation.Operators
import BlockForge.Proofs.Simulation.Standalone

/-!
# Folding and computing

A literal expression folds to the constant that its operators would compute, had they been emitted: folding
is exact and checks the range at every node, so it never sees a value wrap, except in a left shift, which
wraps as the instruction does.
-/

namespace BlockForge.Simulation

open Ir (Builder Emit ValueId)
open Ir.Emit (Onward)
open Lowering (Const FoldCause emitArithmetic emitBitwise emitEquality emitOrdering emitShift evalConst fitConst
  floorMod foldBinary foldCompare foldInt inWide intLeaf literalKind wrapToWidth)
open Machine (At Holds Part World)
open Reference (bitwiseInt intArithmetic orderInt shiftInt)
open Source (BinaryOp Expr)
open StateM
open BlockForge.Types (IntWidth Layout Ty)
open Word (encode)

/-! ### Bits of the wide range -/

theorem pow2_eq (n : Nat) : pow2 n = 2 ^ n := by
  induction n with
  | zero => rfl
  | succ n ih => rw [pow2_succ, ih, pow_succ]

theorem wideWrap_modEq {bits : Nat} (h : bits ≤ 128) (z : Int) : Wide.wrap z ≡ z [ZMOD (2 ^ bits : Nat)] := by
  have hdvd : ((2 ^ bits : Nat) : Int) ∣ (2 ^ 128 : Nat) := Int.natCast_dvd_natCast.2 (Nat.pow_dvd_pow 2 h)
  have hmod : Wide.wrap z ≡ z [ZMOD (2 ^ 128 : Nat)] := by
    rw [Wide.wrap, pow2_eq]
    exact Int.bmod_emod
  exact hmod.of_dvd hdvd

/-- The low bits of a 128-bit pattern. -/
theorem toNat_ofInt_mod {bits : Nat} (h : bits ≤ 128) (z : Int) :
    (BitVec.ofInt 128 z).toNat % 2 ^ bits = intBits bits z := by
  have hdvd : (2 ^ bits : Nat) ∣ 2 ^ 128 := Nat.pow_dvd_pow 2 h
  have hpos : (0 : Int) < (2 ^ 128 : Nat) := by positivity
  have hnat : ((BitVec.ofInt 128 z).toNat : Int) = z % (2 ^ 128 : Nat) := by
    rw [BitVec.toNat_ofInt]
    exact Int.toNat_of_nonneg (Int.emod_nonneg z hpos.ne')
  have hcast : (((BitVec.ofInt 128 z).toNat % 2 ^ bits : Nat) : Int) = (intBits bits z : Nat) := by
    rw [Int.natCast_mod, hnat, Int.emod_emod_of_dvd z (Int.natCast_dvd_natCast.2 hdvd)]
    exact (Int.toNat_of_nonneg (Int.emod_nonneg z (by positivity))).symm
  exact Int.ofNat.inj hcast

/-- A bitwise operation of the wide range acts on the low bits alone. -/
theorem wideBitwise_modEq {bits : Nat} (h : bits ≤ 128) {f : BitVec 128 → BitVec 128 → BitVec 128}
    {g : Nat → Nat → Nat} (hf : ∀ x y, (f x y).toNat % 2 ^ bits = g (x.toNat % 2 ^ bits) (y.toNat % 2 ^ bits))
    (a b : Int) : Wide.bitwise f a b ≡ (g (intBits bits a) (intBits bits b) : Nat) [ZMOD (2 ^ bits : Nat)] := by
  have hdvd : ((2 ^ bits : Nat) : Int) ∣ (2 ^ 128 : Nat) := Int.natCast_dvd_natCast.2 (Nat.pow_dvd_pow 2 h)
  have hwide : Wide.bitwise f a b ≡ ((f (.ofInt 128 a) (.ofInt 128 b)).toNat : Int) [ZMOD (2 ^ 128 : Nat)] := by
    rw [Wide.bitwise, BitVec.toInt_eq_toNat_bmod]
    exact Int.bmod_emod
  refine (hwide.of_dvd hdvd).trans ?_
  rw [← toNat_ofInt_mod h, ← toNat_ofInt_mod h b, ← hf]
  exact (Int.mod_modEq _ _).symm

theorem wideAnd_modEq {bits : Nat} (h : bits ≤ 128) (a b : Int) :
    Wide.bitwise (· &&& ·) a b ≡ (intBits bits a &&& intBits bits b : Nat) [ZMOD (2 ^ bits : Nat)] :=
  wideBitwise_modEq h (fun x y => by rw [BitVec.toNat_and, Nat.and_mod_two_pow]) a b

theorem wideOr_modEq {bits : Nat} (h : bits ≤ 128) (a b : Int) :
    Wide.bitwise (· ||| ·) a b ≡ (intBits bits a ||| intBits bits b : Nat) [ZMOD (2 ^ bits : Nat)] :=
  wideBitwise_modEq h (fun x y => by rw [BitVec.toNat_or, Nat.or_mod_two_pow]) a b

theorem wideXor_modEq {bits : Nat} (h : bits ≤ 128) (a b : Int) :
    Wide.bitwise (· ^^^ ·) a b ≡ (intBits bits a ^^^ intBits bits b : Nat) [ZMOD (2 ^ bits : Nat)] :=
  wideBitwise_modEq h (fun x y => by rw [BitVec.toNat_xor, Nat.xor_mod_two_pow]) a b

theorem shiftOne_eq {n : Nat} (h : n ≤ 64) : Wide.shiftOne n = (2 ^ n : Nat) := by
  have hlt : (2 ^ n : Nat) ≤ 2 ^ 64 := Nat.pow_le_pow_right (by omega) h
  rw [Wide.shiftOne, Nat.mod_eq_of_lt (by omega), pow2_eq, Wide.wrap, pow2_eq]
  generalize 2 ^ n = p at hlt
  refine Int.bmod_eq_of_le ?_ ?_ <;> omega

theorem wrapToWidth_modEq {bits : Nat} (h : bits ≤ 64) (z : Int) (signed : Bool) :
    wrapToWidth z bits signed ≡ z [ZMOD (2 ^ bits : Nat)] := by
  have hpos : 0 < 2 ^ bits := by positivity
  have hones : intBits bits (Wide.wrap (Wide.shiftOne bits - 1)) = 2 ^ bits - 1 := by
    have hmod := wideWrap_modEq (by omega : bits ≤ 128) (Wide.shiftOne bits - 1)
    rw [shiftOne_eq h] at hmod ⊢
    unfold intBits
    rw [hmod]
    generalize 2 ^ bits = p at hpos
    rw [Int.emod_eq_of_lt (by omega) (by omega)]
    omega
  have hmasked : Wide.bitwise (· &&& ·) z (Wide.wrap (Wide.shiftOne bits - 1)) ≡ z [ZMOD (2 ^ bits : Nat)] := by
    refine (wideAnd_modEq (by omega) z _).trans ?_
    rw [hones, Nat.and_two_pow_sub_one_eq_mod, Int.natCast_mod]
    refine (Int.mod_modEq _ _).trans ?_
    rw [intBits, Int.toNat_of_nonneg (Int.emod_nonneg z (by positivity))]
    exact Int.mod_modEq z _
  unfold wrapToWidth
  dsimp only
  split
  · have hsub : ∀ m : Int, m - (2 ^ bits : Nat) ≡ m [ZMOD (2 ^ bits : Nat)] := fun m => by simp [Int.ModEq]
    refine (wideWrap_modEq (by omega) _).trans ?_
    rw [shiftOne_eq h] at hmasked ⊢
    exact (hsub _).trans hmasked
  · exact hmasked

/-! ### Integer types -/

theorem wideWrap_eq {z : Int} (h : -(2 ^ 64 : Nat) ≤ z) (h' : z ≤ (2 ^ 64 : Nat)) : Wide.wrap z = z := by
  rw [Wide.wrap, pow2_eq]
  refine Int.bmod_eq_of_le ?_ ?_ <;> omega

theorem signedRange_eq {bits : Nat} (hpos : 0 < bits) (h : bits ≤ 64) :
    Wide.signedRange bits = (-((2 ^ (bits - 1) : Nat) : Int), ((2 ^ (bits - 1) : Nat) : Int) - 1) := by
  have hle : 2 ^ (bits - 1) ≤ 2 ^ 64 := Nat.pow_le_pow_right (by omega) (by omega)
  have hpred : Wide.widthPred bits = bits - 1 := by rw [Wide.widthPred, if_neg (by omega)]
  have hhalf := shiftOne_eq (by omega : bits - 1 ≤ 64)
  unfold Wide.signedRange
  rw [hpred, hhalf]
  generalize 2 ^ (bits - 1) = p at hle
  dsimp only
  rw [wideWrap_eq (by omega) (by omega), wideWrap_eq (by omega) (by omega)]

theorem unsignedRange_eq {bits : Nat} (h : bits ≤ 64) : Wide.unsignedRange bits = (0, ((2 ^ bits : Nat) : Int) - 1) := by
  have hle : 2 ^ bits ≤ 2 ^ 64 := Nat.pow_le_pow_right (by omega) h
  unfold Wide.unsignedRange
  rw [shiftOne_eq h]
  generalize 2 ^ bits = p at hle
  rw [wideWrap_eq (by omega) (by omega)]

/-- An integer type of a width that the machine computes at. -/
structure Integral (l : Layout) (t : Ty) (bits : Nat) : Prop where
  width : t.intWidth?.map l.intBits = some bits
  ir : (l.irType t).intBits? = some bits
  pos : 0 < bits
  le : bits ≤ 64

/-- On targets with pointers of 16, 32 or 64 bits every integer type is one. -/
theorem integral_of_width {l : Layout} (hl : l.pointerBits ∈ [16, 32, 64]) {t : Ty} {w : IntWidth}
    (ht : t.intWidth? = some w) : Integral l t (l.intBits w) := by
  have hbits : l.intBits w ∈ [8, 16, 32, 64] := by
    cases w <;> simp_all [Layout.intBits, IntWidth.bits]
  have hir : (l.irType t).intBits? = some (l.intBits w) := by
    have hirType : l.irType t = (Ir.Ty.int? (l.intBits w)).getD .i64 := by
      cases t <;> cases ht <;> rfl
    rw [hirType]
    simp only [List.mem_cons, List.not_mem_nil, or_false] at hbits
    rcases hbits with h | h | h | h <;> rw [h] <;> rfl
  refine ⟨by rw [ht]; rfl, hir, ?_, ?_⟩ <;>
  · simp only [List.mem_cons, List.not_mem_nil, or_false] at hbits
    omega

section

variable {l : Layout} {t : Ty} {bits : Nat} (h : Integral l t bits)

include h

theorem Integral.isFloat : t.isFloat = false := by
  have := h.width
  cases t <;> first | rfl | cases this

/-- A constant fits an integer type if it does not wrap there. -/
theorem fitConst_eq_ok {v : Int} {c : Const} (hc : fitConst l t (.int v) = .ok c) :
    c = .int v ∧ wrapInt t.isSignedInt bits v = v := by
  have hw := h.width
  have hpos := h.pos
  have hle := h.le
  cases t with
  | signed w =>
    cases hw
    simp only [fitConst, Layout.intRange?, signedRange_eq hpos hle] at hc
    split at hc
    · cases hc
    · rename_i hr
      cases hc
      refine ⟨rfl, (wrapInt_true_iff hpos).2 ?_⟩
      omega
  | unsigned w =>
    cases hw
    simp only [fitConst, Layout.intRange?, unsignedRange_eq hle] at hc
    split at hc
    · cases hc
    · rename_i hr
      cases hc
      refine ⟨rfl, wrapInt_false_iff.2 ?_⟩
      omega
  | _ => cases hw

/-! ### Operators -/

/-- What an operator computes on integers of a type. -/
def computeInt (op : BinaryOp) (signed : Bool) (bits : Nat) (a b : Int) : Option Int :=
  if op.isArithmetic then intArithmetic op signed bits a b
  else if op.isShift then some (shiftInt op signed bits a b)
  else some (bitwiseInt op signed bits a b)

/-- An operator folds to what it computes, if that fits the type. -/
theorem foldInt_eq {op : BinaryOp} {a b v : Int} (hf : foldInt l t op a b = .ok v)
    (hv : wrapInt t.isSignedInt bits v = v) :
    computeInt op t.isSignedInt bits a b = some v := by
  have hle := h.le
  have hpos := h.pos
  have hbits : (t.intWidth?.map l.intBits).getD 64 = bits := by rw [h.width]; rfl
  have hpow : bits < 2 ^ bits := Nat.lt_two_pow_self
  -- what is congruent to a value of the type wraps to it
  have hwrap : ∀ {z : Int}, v ≡ z [ZMOD (2 ^ bits : Nat)] → wrapInt t.isSignedInt bits z = v := fun hz =>
    (wrapInt_congr hz).symm.trans hv
  have hwide : ∀ {z : Int}, inWide z = .ok v → z = v := by
    intro z hz
    unfold inWide at hz
    split at hz
    · exact Except.ok.inj hz
    · cases hz
  have hamount : ∀ {n : Int}, ¬(n < 0 ∨ (bits : Int) ≤ n) →
      n.toNat % 128 = intBits bits n ∧ intBits bits n < bits ∧ pow2 (n.toNat % 128) = 2 ^ intBits bits n := by
    intro n hn
    have hmod : n % (2 ^ bits : Nat) = n := Int.emod_eq_of_lt (by omega) (by omega)
    have heq : intBits bits n = n.toNat := by rw [intBits, hmod]
    refine ⟨by omega, by omega, ?_⟩
    rw [pow2_eq, heq, Nat.mod_eq_of_lt (by omega)]
  unfold foldInt at hf
  dsimp only at hf
  rw [hbits] at hf
  cases op <;> simp only [computeInt, BinaryOp.isArithmetic, BinaryOp.isShift, if_true, if_false,
    Bool.false_eq_true] at hf ⊢
  case add => rw [intArithmetic, hwide hf, hv]
  case sub => rw [intArithmetic, hwide hf, hv]
  case mul => rw [intArithmetic, hwide hf, hv]
  case div =>
    split at hf
    · cases hf
    · rename_i hb
      cases hf
      rw [intArithmetic, if_neg hb, hv]
  case rem =>
    split at hf
    · cases hf
    · rename_i hb
      cases hf
      rw [intArithmetic, if_neg hb, hv]
  case mod =>
    split at hf
    · cases hf
    · rename_i hb
      cases hf
      have hmod : floorMod a b = a.fmod b := (fmod_eq_adjusted a b).symm
      rw [hmod] at hv ⊢
      rw [intArithmetic, if_neg hb, hv]
  case bitAnd =>
    cases hf
    exact congrArg some (hwrap (wideAnd_modEq (by omega) a b))
  case bitOr =>
    cases hf
    exact congrArg some (hwrap (wideOr_modEq (by omega) a b))
  case bitXor =>
    cases hf
    exact congrArg some (hwrap (wideXor_modEq (by omega) a b))
  case shl =>
    split at hf
    · cases hf
    · rename_i hb
      obtain ⟨-, hlt, hp⟩ := hamount hb
      have hv' := Except.ok.inj hf
      rw [hp] at hv'
      have hmod : v ≡ a * (2 ^ intBits bits b : Nat) [ZMOD (2 ^ bits : Nat)] := by
        rw [← hv']
        exact (wrapToWidth_modEq hle _ _).trans (wideWrap_modEq (by omega) _)
      rw [shiftInt, if_pos rfl, if_pos hlt, hwrap hmod]
  case shr =>
    split at hf
    · cases hf
    · rename_i hb
      obtain ⟨-, hlt, hp⟩ := hamount hb
      cases hf
      rw [hp, shiftInt, if_neg (by simp), if_pos hlt]
  all_goals cases hf

/-- A folded constant is in the range of its type. -/
theorem wrapInt_of_evalConst {e : Expr} {v : Int} (he : evalConst l t e = .ok (.int v)) :
    wrapInt t.isSignedInt bits v = v := by
  have hfit : ∀ {c : Const}, fitConst l t c = .ok (.int v) → wrapInt t.isSignedInt bits v = v := by
    intro c hc
    cases c with
    | int u =>
      obtain ⟨hu, hr⟩ := fitConst_eq_ok h hc
      cases hu
      exact hr
    | float u => cases hc
  fun_induction evalConst l t e with
  | case1 s u => exact hfit (Lowering.locate_eq_ok he)
  | case2 s u => exact hfit (Lowering.locate_eq_ok he)
  | case3 s s' u => exact hfit (Lowering.locate_eq_ok he)
  | case4 => cases he
  | case5 => exact hfit (Lowering.locate_eq_ok he)
  | case6 => cases he
  | case7 => cases he
  | case8 s op a b ca hca cb hcb =>
    have hbind := Lowering.locate_eq_ok he
    cases hf : foldBinary l t op ca cb with
    | error err =>
      rw [hf] at hbind
      cases hbind
    | ok c =>
      rw [hf] at hbind
      exact hfit hbind
  | case9 => cases he

/-! ### Code without folding -/

end

/-- The code of an operator on two values of an integer type. -/
def emitOperator (l : Layout) (t : Ty) (op : BinaryOp) (a b : ValueId) : Emit (Option ValueId) :=
  if op.isArithmetic then emitArithmetic op t (l.irType t) a b
  else if op.isShift then some <$> emitShift op t (l.irType t) a b t.isSignedInt
  else some <$> emitBitwise op a b

/-- The code of a comparison of two values of an integer type. -/
def emitComparison (t : Ty) (op : BinaryOp) (a b : ValueId) : Emit ValueId :=
  if op.isOrdering then emitOrdering op t a b else emitEquality (op == .eq) t a b

/-- The code of a literal expression of an integer type, operator by operator; nothing for other
expressions. -/
def emitUnfolded (l : Layout) (t : Ty) : Expr → Emit (Option ValueId)
  | .int _ v => some <$> Emit.constInt (l.irType t) v
  | .unary _ .neg e => do
    match ← emitUnfolded l t e with
    | some x => some <$> Emit.neg x "neg"
    | none => pure none
  | .unary _ .plus e => emitUnfolded l t e
  | .binary _ op a b => do
    match ← emitUnfolded l t a with
    | none => pure none
    | some x =>
      match ← emitUnfolded l t b with
      | none => pure none
      | some y => emitOperator l t op x y
  | _ => pure none

/-- The code of a comparison of two literal expressions of an integer type. -/
def emitUnfoldedComparison (l : Layout) (t : Ty) (op : BinaryOp) (a b : Expr) : Emit (Option ValueId) := do
  match ← emitUnfolded l t a with
  | none => pure none
  | some x =>
    match ← emitUnfolded l t b with
    | none => pure none
    | some y => some <$> emitComparison t op x y

section

variable {l : Layout} {t : Ty} {bits : Nat} (h : Integral l t bits)

include h

theorem emitOperator_ends (op : BinaryOp) {b : Builder} (hb : b.Live)
    {x y : ValueId} (hx : b.function.Has x (l.irType t)) (hy : b.function.Has y (l.irType t)) :
    (emitOperator l t op x y).Sat b fun r b' => ∃ v, r = some v ∧
      (Onward b b' ∧ b'.function.Has v (l.irType t)) ∧
      ∀ {w : World} {M : Machine.State} {m n : Int}, Part b' w → At w.func b M →
        wrapInt t.isSignedInt bits m = m → wrapInt t.isSignedInt bits n = n →
        Holds b M x (.int (encode bits m)) → Holds b M y (.int (encode bits n)) →
        Ends w b M b' v ((computeInt op t.isSignedInt bits m n).map (encode bits)) := by
  unfold emitOperator computeInt
  by_cases harith : op.isArithmetic = true
  · simp only [harith, if_true]
    exact emitArithmetic_ends hb h.ir h.pos hx hy harith h.isFloat
  · simp only [harith, Bool.false_eq_true, if_false]
    by_cases hshift : op.isShift = true
    · simp only [hshift, if_true]
      refine Sat.map ((emitShift_reaches hb h.ir hx op h.pos h.ir h.pos hy _).imp ?_)
      exact fun v b' ⟨hv, run⟩ => ⟨v, rfl, hv, fun hp hM hm hn hmx hny => run hp hM hm hn hmx hny⟩
    · simp only [hshift, Bool.false_eq_true, if_false]
      refine Sat.map ((emitBitwise_reaches hb h.ir hx hy op t.isSignedInt).imp ?_)
      exact fun v b' ⟨hv, run⟩ => ⟨v, rfl, hv, fun hp hM _ _ hmx hny => run hp hM hmx hny⟩

theorem leaf_runs (u : UInt64) :
    Runs (some <$> Emit.constInt (l.irType t) u) (l.irType t) (.int (encode bits u.toNat)) := by
  intro b hb
  have hmask : Word.mask u bits = encode bits u.toNat := Word.mask_eq h.le rfl
  refine Sat.map ((constInt_reaches hb h.ir u).imp fun v b' ⟨hv, run⟩ => ⟨v, rfl, hv, ?_⟩)
  rw [← hmask]
  exact run

theorem Runs.neg {code : Emit (Option ValueId)} {a : Int} (ha : Runs code (l.irType t) (.int (encode bits a))) :
    Runs (do match ← code with | some x => some <$> Emit.neg x "neg" | none => pure none) (l.irType t)
      (.int (encode bits (-a))) := by
  intro b hb
  refine Sat.bind (ha b hb) ?_
  rintro _ b₁ ⟨x, rfl, ⟨o₁, hx⟩, r₁⟩
  refine Sat.map ((neg_reaches o₁.live h.ir hx _).imp ?_)
  rintro v b₂ ⟨⟨o₂, hv⟩, r₂⟩
  refine ⟨v, rfl, ⟨o₁.trans o₂, hv⟩, fun {w M} hp hM => ?_⟩
  exact (r₁ (hp.back o₂) hM).bind fun M₁ m₁ hx₁ => r₂ hp m₁.toAt hx₁

omit h in
/-- Both operands of an operator run, the left one first. -/
theorem Runs.both {left right : Emit (Option ValueId)} {a c : Int}
    (hl : Runs left (l.irType t) (.int (encode bits a))) (hr : Runs right (l.irType t) (.int (encode bits c)))
    {f : ValueId → ValueId → Emit (Option ValueId)} {ir : Ir.Ty} {z : Machine.Val}
    (hf : ∀ {b : Builder} {x y : ValueId}, b.Live → b.function.Has x (l.irType t) → b.function.Has y (l.irType t) →
      (f x y).Sat b fun r b' => ∃ v, r = some v ∧ (Onward b b' ∧ b'.function.Has v ir) ∧
        ∀ {w : World} {M : Machine.State}, Part b' w → At w.func b M → Holds b M x (.int (encode bits a)) →
          Holds b M y (.int (encode bits c)) → w.Reaches b M b' (Holds b' · v z)) :
    Runs (do
      match ← left with
      | none => pure none
      | some x =>
        match ← right with
        | none => pure none
        | some y => f x y) ir z := by
  intro b hb
  refine Sat.bind (hl b hb) ?_
  rintro _ b₁ ⟨x, rfl, ⟨o₁, hx⟩, r₁⟩
  refine Sat.bind (hr b₁ o₁.live) ?_
  rintro _ b₂ ⟨y, rfl, ⟨o₂, hy⟩, r₂⟩
  refine (hf o₂.live (o₂.has hx) hy).imp ?_
  rintro _ b₃ ⟨v, rfl, ⟨o₃, hv⟩, r₃⟩
  refine ⟨v, rfl, ⟨(o₁.trans o₂).trans o₃, hv⟩, fun {w M} hp hM => ?_⟩
  have p₂ := hp.back o₃
  refine (r₁ (p₂.back o₂) hM).bind fun M₁ m₁ hx₁ => (r₂ p₂ m₁.toAt).bind fun M₂ m₂ hy₂ => ?_
  exact r₃ hp m₂.toAt (m₂.holds hx₁) hy₂

omit h in
theorem literalKind_operands {s : Source.Span} {op : BinaryOp} {a b : Expr} {k : Int}
    (hk : literalKind (.binary s op a b) = some (.int k)) :
    ∃ i j, literalKind a = some (.int i) ∧ literalKind b = some (.int j) := by
  simp only [literalKind] at hk
  split at hk
  · split at hk
    · rename_i ka kb ha hb
      obtain ⟨u, hu, hkind⟩ := Option.map_eq_some_iff.1 hk
      cases ka <;> cases kb <;> simp [Types.LitKind.unify?] at hu <;> subst hu
      · exact ⟨_, _, ha, hb⟩
      · cases hkind
    · cases hk
  · cases hk

theorem intLeaf_eq (v : Int) : intLeaf t v = .int v := by rw [intLeaf, h.isFloat]; rfl

/-- Integer literals fold to integers. -/
theorem exists_int_of_evalConst {e : Expr} {k : Int} {c : Const} (hk : literalKind e = some (.int k))
    (he : evalConst l t e = .ok c) : ∃ a, c = .int a ∧ wrapInt t.isSignedInt bits a = a := by
  cases c with
  | int a => exact ⟨a, rfl, wrapInt_of_evalConst h he⟩
  | float u =>
    have hsuits : t.isFloat = true := Lowering.suits_evalConst hk (by rintro ⟨⟩) he
    rw [h.isFloat] at hsuits
    cases hsuits

theorem wideWrap_neg {a : Int} (ha : wrapInt t.isSignedInt bits a = a) : Wide.wrap (-a) = -a := by
  have hle := h.le
  have hpow : 2 ^ bits ≤ 2 ^ 64 := Nat.pow_le_pow_right (by omega) hle
  have hhalf : 2 ^ (bits - 1) ≤ 2 ^ 64 := Nat.pow_le_pow_right (by omega) (by omega)
  cases hs : t.isSignedInt with
  | false =>
    rw [hs, wrapInt_false_iff] at ha
    exact wideWrap_eq (by omega) (by omega)
  | true =>
    rw [hs, wrapInt_true_iff h.pos] at ha
    exact wideWrap_eq (by omega) (by omega)

/-- The code of a literal expression runs to the constant that it folds to. -/
theorem emitUnfolded_runs {e : Expr} {k v : Int} (hk : literalKind e = some (.int k))
    (he : evalConst l t e = .ok (.int v)) : Runs (emitUnfolded l t e) (l.irType t) (.int (encode bits v)) := by
  fun_induction evalConst l t e generalizing k v with
  | case1 s u =>
    have hfit := Lowering.locate_eq_ok he
    rw [intLeaf_eq h] at hfit
    cases (fitConst_eq_ok h hfit).1
    rw [emitUnfolded]
    exact leaf_runs h u
  | case2 => cases hk
  | case3 s s' u =>
    have hfit := Lowering.locate_eq_ok he
    rw [intLeaf_eq h] at hfit
    cases (fitConst_eq_ok h hfit).1
    rw [emitUnfolded, emitUnfolded]
    exact (leaf_runs h u).neg h
  | case4 => cases he
  | case5 s op e hne c hc ih =>
    have hfit := Lowering.locate_eq_ok he
    cases op with
    | neg =>
      obtain ⟨kind, hkind, hint⟩ := Option.map_eq_some_iff.1 hk
      cases kind with
      | float => cases hint
      | int i =>
        obtain ⟨a, rfl, ha⟩ := exists_int_of_evalConst h hkind hc
        rw [if_pos rfl, Const.neg, wideWrap_neg h ha] at hfit
        cases (fitConst_eq_ok h hfit).1
        rw [emitUnfolded]
        exact (ih hkind hc).neg h
    | plus =>
      have hkind : literalKind e = some (.int k) := hk
      obtain ⟨a, rfl, -⟩ := exists_int_of_evalConst h hkind hc
      rw [if_neg (by simp)] at hfit
      cases (fitConst_eq_ok h hfit).1
      rw [emitUnfolded]
      exact ih hkind hc
    | not => cases hk
    | bitNot => cases hk
  | case6 => cases he
  | case7 => cases he
  | case8 s op a b ca hca cb hcb iha ihb =>
    obtain ⟨i, j, hi, hj⟩ := literalKind_operands hk
    obtain ⟨m, rfl, hm⟩ := exists_int_of_evalConst h hi hca
    obtain ⟨n, rfl, hn⟩ := exists_int_of_evalConst h hj hcb
    have hbind := Lowering.locate_eq_ok he
    cases hf : foldInt l t op m n with
    | error err =>
      rw [foldBinary, hf] at hbind
      cases hbind
    | ok z =>
      rw [foldBinary, hf] at hbind
      obtain ⟨hz, hr⟩ := fitConst_eq_ok h hbind
      cases hz
      have hcompute := foldInt_eq h hf hr
      rw [emitUnfolded]
      refine (iha hi hca).both (ihb hj hcb) fun hb hx hy => (emitOperator_ends h op hb hx hy).imp ?_
      rintro r b' ⟨w, rfl, hw, run⟩
      refine ⟨w, rfl, hw, fun hp hM hmx hny => ?_⟩
      have := run hp hM hm hn hmx hny
      rw [hcompute] at this
      exact this
  | case9 => cases he

omit h in
theorem foldCompare_int {op : BinaryOp} (hop : op.isComparison = true) (a b : Int) :
    foldCompare op (.int a) (.int b) = if op.isOrdering then orderInt op a b else decide (a = b) == (op == .eq) := by
  have hcompare : compare a b = if a < b then .lt else if a = b then .eq else .gt := rfl
  rcases lt_trichotomy a b with hlt | rfl | hgt
  · have hle : a ≤ b := hlt.le
    have hne : a ≠ b := hlt.ne
    have hge : ¬ b ≤ a := hlt.not_ge
    have hgt : ¬ b < a := hlt.not_gt
    cases op <;> simp_all [BinaryOp.isComparison, BinaryOp.isOrdering, foldCompare, Const.order?, orderInt]
  · cases op <;> simp_all [BinaryOp.isComparison, BinaryOp.isOrdering, foldCompare, Const.order?, orderInt]
  · have hle : b ≤ a := hgt.le
    have hne : a ≠ b := hgt.ne'
    have hge : ¬ a ≤ b := hgt.not_ge
    have hlt : ¬ a < b := hgt.not_gt
    cases op <;> simp_all [BinaryOp.isComparison, BinaryOp.isOrdering, foldCompare, Const.order?, orderInt]

/-- A comparison folds as its code computes. -/
theorem emitComparison_runs {op : BinaryOp} (hop : op.isComparison = true) {e e' : Expr} {k k' v v' : Int}
    (hk : literalKind e = some (.int k)) (hk' : literalKind e' = some (.int k'))
    (he : evalConst l t e = .ok (.int v)) (he' : evalConst l t e' = .ok (.int v')) :
    Runs (emitUnfoldedComparison l t op e e') .i1 (.bool (foldCompare op (.int v) (.int v'))) := by
  have hv := wrapInt_of_evalConst h he
  have hv' := wrapInt_of_evalConst h he'
  unfold emitUnfoldedComparison
  refine (emitUnfolded_runs h hk he).both (emitUnfolded_runs h hk' he') fun hb hx hy => ?_
  unfold emitComparison
  split
  · rename_i hord
    refine Sat.map ((emitOrdering_reaches hb h.ir h.pos hx hy op h.isFloat).imp ?_)
    rintro u b' ⟨hu, run⟩
    refine ⟨u, rfl, hu, fun hp hM hvx hvy => ?_⟩
    rw [foldCompare_int hop, if_pos hord]
    exact run hp hM hv hv' hvx hvy
  · rename_i hord
    have hsat := @emitEquality_reaches _ hb _ _ h.ir _ _ hx hy (op == .eq) t h.isFloat t.isSignedInt
    refine Sat.map (hsat.imp ?_)
    rintro u b' ⟨hu, run⟩
    refine ⟨u, rfl, hu, fun hp hM hvx hvy => ?_⟩
    rw [foldCompare_int hop, if_neg hord]
    exact run hp hM hv hv' hvx hvy

end

/-- A literal expression folds to the constant that its operators compute when they are run one by one, and
two of them compare as their constants do. -/
theorem folded_as_computed {l : Layout} (hl : l.pointerBits ∈ [16, 32, 64]) {t : Ty} {width : IntWidth}
    (ht : t.intWidth? = some width) {e : Expr} {k v : Int} (hk : literalKind e = some (.int k))
    (he : evalConst l t e = .ok (.int v)) {limit : Nat} (hlimit : 0 < limit) (store : Machine.Store) :
    (∃ n, ∀ fuel, n ≤ fuel →
      (Machine.invoke (returning l.pointerBits (l.irType t) (emitUnfolded l t e)) limit fuel store ⟨0⟩ []).result =
        .ok (some (.int (encode (l.intBits width) v)))) ∧
    ∀ {op : BinaryOp} {e' : Expr} {k' v' : Int}, op.isComparison = true → literalKind e' = some (.int k') →
      evalConst l t e' = .ok (.int v') →
      ∃ n, ∀ fuel, n ≤ fuel →
        (Machine.invoke (returning l.pointerBits .i1 (emitUnfoldedComparison l t op e e')) limit fuel store
          ⟨0⟩ []).result = .ok (some (.bool (foldCompare op (.int v) (.int v')))) := by
  have h := integral_of_width hl ht
  have hbits : l.pointerBits ≤ 64 := by
    simp only [List.mem_cons, List.not_mem_nil, or_false] at hl
    omega
  refine ⟨(emitUnfolded_runs h hk he).returned hbits hlimit store, fun hop hk' he' => ?_⟩
  exact (emitComparison_runs h hop hk hk' he he').returned hbits hlimit store

/-- The remainder of a negative number, `-7 mod 3`. -/
def remainderTree : Expr := .binary default .mod (.unary default .neg (.int default 7)) (.int default 3)

/-- A shift up to the sign bit, `1 << 7`. -/
def shiftTree : Expr := .binary default .shl (.int default 1) (.int default 7)

theorem remainder_exceeds_shift : evalConst ⟨64⟩ (.signed .w8) remainderTree = .ok (.int 2) ∧
    evalConst ⟨64⟩ (.signed .w8) shiftTree = .ok (.int (-128)) ∧
    (∃ n, ∀ fuel, n ≤ fuel →
      (Machine.invoke (returning 64 .i8 (emitUnfolded ⟨64⟩ (.signed .w8) remainderTree)) 1 fuel default ⟨0⟩
        []).result = .ok (some (.int 2))) ∧
    ∃ n, ∀ fuel, n ≤ fuel →
      (Machine.invoke (returning 64 .i1 (emitUnfoldedComparison ⟨64⟩ (.signed .w8) .gt remainderTree shiftTree)) 1
        fuel default ⟨0⟩ []).result = .ok (some (.bool true)) := by
  have hremainder : evalConst ⟨64⟩ (.signed .w8) remainderTree = .ok (.int 2) := by decide +kernel
  have hshift : evalConst ⟨64⟩ (.signed .w8) shiftTree = .ok (.int (-128)) := by decide +kernel
  obtain ⟨hvalue, hcompare⟩ :=
    folded_as_computed (by decide) rfl (show literalKind remainderTree = some (.int 0) from rfl) hremainder
      (show 0 < 1 by decide) default
  refine ⟨hremainder, hshift, hvalue, ?_⟩
  exact hcompare rfl (show literalKind shiftTree = some (.int 0) from rfl) hshift

end BlockForge.Simulation
