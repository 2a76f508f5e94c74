import BlockForge.Proofs.Reference.Literals

/-!
# Literal expressions at two types

The value of a literal expression depends on its type through left shifts alone, which wrap at the width. Most
operators compute the low bits of their result from the low bits of their operands. So two types agree on the low
bits of a value already if they agree on those left shifts of which more than the low bits counts.
-/

namespace BlockForge.Reference

open Source (BinaryOp Expr)

/-- Whether the low bits of the result come from the low bits of the operands. -/
def isModular : BinaryOp → Bool
  | .add | .sub | .mul | .bitAnd | .bitOr | .bitXor => true
  | _ => false

/-- The left shifts of which the whole value counts, if the whole value of the expression does or only its low
bits do. The operands of such a shift need not be looked at. -/
def wholeShifts : (whole : Bool) → Expr → List Expr
  | whole, .unary _ _ e => wholeShifts whole e
  | whole, .binary s op a b =>
    if op = .shl then
      if whole then [.binary s op a b] else wholeShifts false a ++ wholeShifts true b
    else wholeShifts (whole || !isModular op) a ++ wholeShifts (whole || !isModular op) b
  | _, _ => []

/-- Two types agree on the left shifts of which the whole value counts. -/
def Steady (signed signed' : Bool) (bits bits' : Nat) (whole : Bool) (e : Expr) : Prop :=
  ∀ x ∈ wholeShifts whole e, literalValue signed bits x = literalValue signed' bits' x

instance (signed signed' : Bool) (bits bits' : Nat) (whole : Bool) (e : Expr) :
    Decidable (Steady signed signed' bits bits' whole e) := inferInstanceAs (Decidable (∀ x ∈ wholeShifts whole e, _))

section

variable {signed signed' : Bool} {bits bits' k : Nat} {a a' b b' : Int}

theorem intBits_congr (h : a ≡ a' [ZMOD (2 ^ k : Nat)]) : intBits k a = intBits k a' := by
  unfold intBits
  rw [h]

/-- Only a left shift looks at the type. -/
theorem exactInt_eq_of_ne_shl {op : BinaryOp} (hop : op ≠ .shl) :
    exactInt op signed bits a b = exactInt op signed' bits' a b := by
  cases op <;> first | rfl | exact absurd rfl hop

theorem exactInt_modEq {op : BinaryOp} (hop : isModular op = true) (ha : a ≡ a' [ZMOD (2 ^ k : Nat)])
    (hb : b ≡ b' [ZMOD (2 ^ k : Nat)]) :
    exactInt op signed bits a b ≡ exactInt op signed' bits' a' b' [ZMOD (2 ^ k : Nat)] := by
  -- a bitwise operator is one on the low bits
  have hbits : ∀ {x y : Int}, intBits k x = intBits k y → x ≡ y [ZMOD (2 ^ k : Nat)] := fun {x y} h =>
    (intBits_modEq k x).symm.trans (h ▸ intBits_modEq k y)
  cases op <;> simp only [isModular, Bool.false_eq_true] at hop
  case add => exact ha.add hb
  case sub => exact ha.sub hb
  case mul => exact ha.mul hb
  case bitAnd =>
    exact hbits (by rw [exactInt, exactInt, intBits_land, intBits_land, intBits_congr ha, intBits_congr hb])
  case bitOr => exact hbits (by rw [exactInt, exactInt, intBits_lor, intBits_lor, intBits_congr ha, intBits_congr hb])
  case bitXor => exact hbits (by rw [exactInt, exactInt, intBits_xor, intBits_xor, intBits_congr ha, intBits_congr hb])

/-- The low bits of a left shift by one amount, from the low bits of what is shifted. -/
theorem exactInt_shl_modEq (hk : k ≤ bits) (hk' : k ≤ bits') (ha : a ≡ a' [ZMOD (2 ^ k : Nat)]) (b : Int) :
    exactInt .shl signed bits a b ≡ exactInt .shl signed' bits' a' b [ZMOD (2 ^ k : Nat)] := by
  have hdvd : ∀ {n : Nat}, k ≤ n → ((2 ^ k : Nat) : Int) ∣ (2 ^ n : Nat) := fun hn =>
    Int.natCast_dvd_natCast.2 (Nat.pow_dvd_pow 2 hn)
  calc exactInt .shl signed bits a b
    _ ≡ a * (2 ^ b.toNat : Nat) [ZMOD (2 ^ k : Nat)] := (wrapInt_modEq signed bits _).of_dvd (hdvd hk)
    _ ≡ a' * (2 ^ b.toNat : Nat) [ZMOD (2 ^ k : Nat)] := ha.mul_right _
    _ ≡ exactInt .shl signed' bits' a' b [ZMOD (2 ^ k : Nat)] :=
      ((wrapInt_modEq signed' bits' _).of_dvd (hdvd hk')).symm

/-- Where two types agree on these left shifts, the expression has the same low bits at both, and the same value
if its whole value counts. -/
theorem Steady.agree (hk : k ≤ bits) (hk' : k ≤ bits') {whole : Bool} {e : Expr}
    (h : Steady signed signed' bits bits' whole e) :
    (whole = true → literalValue signed bits e = literalValue signed' bits' e) ∧
      literalValue signed bits e ≡ literalValue signed' bits' e [ZMOD (2 ^ k : Nat)] := by
  induction whole, e using wholeShifts.induct with
  | case1 whole s op e ih =>
    obtain ⟨heq, hmod⟩ := ih (by simpa only [Steady, wholeShifts] using h)
    cases op with
    | neg => exact ⟨fun hw => congrArg (-·) (heq hw), hmod.neg⟩
    | _ => exact ⟨heq, hmod⟩
  | case2 s a b =>
    have heq := h (.binary s .shl a b) (by simp [wholeShifts])
    exact ⟨fun _ => heq, heq ▸ .refl _⟩
  | case3 s a b whole hfalse iha ihb =>
    simp only [Steady, wholeShifts, if_true, if_neg hfalse, List.forall_mem_append] at h
    refine ⟨fun hw => absurd hw hfalse, ?_⟩
    rw [literalValue, literalValue, (ihb h.2).1 rfl]
    exact exactInt_shl_modEq hk hk' (iha h.1).2 _
  | case4 whole s op a b hop iha ihb =>
    simp only [Steady, wholeShifts, if_neg hop, List.forall_mem_append] at h
    obtain ⟨ha, hamod⟩ := iha h.1
    obtain ⟨hb, hbmod⟩ := ihb h.2
    have hequal : (whole || !isModular op) = true →
        literalValue signed bits (.binary s op a b) = literalValue signed' bits' (.binary s op a b) := fun hw => by
      rw [literalValue, literalValue, ha hw, hb hw]
      exact exactInt_eq_of_ne_shl hop
    refine ⟨fun hw => hequal (by rw [hw]; rfl), ?_⟩
    cases hmodular : isModular op with
    | true => exact exactInt_modEq hmodular hamod hbmod
    | false => exact hequal (by rw [hmodular, Bool.not_false, Bool.or_true]) ▸ .refl _
  | case5 e whole hunary hbinary =>
    have heq : literalValue signed bits e = literalValue signed' bits' e := by
      cases e <;> first | rfl | exact absurd rfl (hunary _ _ _) | exact absurd rfl (hbinary _ _ _ _)
    exact ⟨fun _ => heq, heq ▸ .refl _⟩

end

end BlockForge.Reference
