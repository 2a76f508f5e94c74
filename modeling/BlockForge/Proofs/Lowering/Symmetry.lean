import BlockForge.Proofs.Lowering.SingleExit

/-!
# The order of operands

An operator that takes its operands in either order has one type in both. The operands are lowered from
different states then, so this rests on their being lowered with one outcome in all states of a scope; the
rules for literals, for operands and for results are the same from both sides.
-/

namespace BlockForge.Lowering

open Ir (Builder)
open Ir.Emit
open Source (BinaryOp Expr Span)
open BlockForge.Types (Layout LitKind Ty)

/-- The second operator takes the operands of the first in the other order. -/
inductive Mirrors : BinaryOp → BinaryOp → Prop
  | add : Mirrors .add .add
  | mul : Mirrors .mul .mul
  | bitAnd : Mirrors .bitAnd .bitAnd
  | bitOr : Mirrors .bitOr .bitOr
  | bitXor : Mirrors .bitXor .bitXor
  | eq : Mirrors .eq .eq
  | ne : Mirrors .ne .ne
  | lt : Mirrors .lt .gt
  | le : Mirrors .le .ge

namespace Mirrors

variable {op op' : BinaryOp}

theorem isArithmetic_eq (h : Mirrors op op') : op'.isArithmetic = op.isArithmetic := by cases h <;> rfl

theorem isBitwise_eq (h : Mirrors op op') : op'.isBitwise = op.isBitwise := by cases h <;> rfl

theorem isComparison_eq (h : Mirrors op op') : op'.isComparison = op.isComparison := by cases h <;> rfl

theorem isOrdering_eq (h : Mirrors op op') : op'.isOrdering = op.isOrdering := by cases h <;> rfl

theorem not_isLogical (h : Mirrors op op') : op.isLogical = false ∧ op'.isLogical = false := by
  cases h <;> exact ⟨rfl, rfl⟩

/-- Only comparisons go by another name. -/
theorem eq_of_not_comparison (h : Mirrors op op') (hc : op.isComparison = false) :
    op' = op ∧ op.isDivision = false ∧ op.isShift = false := by
  cases h <;> first | exact ⟨rfl, rfl, rfl⟩ | cases hc

end Mirrors

/-! ### Literals -/

section

variable {op op' : BinaryOp}

theorem unify?_default (a b : LitKind) :
    (a.unify? b).map LitKind.defaultType = (b.unify? a).map LitKind.defaultType := by
  cases a <;> cases b <;> rfl

theorem literalKind_mirrored (h : Mirrors op op') (a b : Expr) (span span' : Span) :
    literalKind (.binary span op a b) = literalKind (.binary span' op' b a) := by
  unfold literalKind
  rw [h.isArithmetic_eq, h.isBitwise_eq]
  cases literalKind a with
  | none => cases literalKind b <;> rfl
  | some x =>
    cases literalKind b with
    | none => rfl
    | some y => cases x <;> cases y <;> rfl

theorem isOk_locate {α : Type} (span : Span) (leaf : Bool) (r : Except FoldCause α) :
    (FoldError.locate span leaf r).isOk = r.isOk := by cases r <;> rfl

theorem foldInt_mirrored (h : Mirrors op op') (l : Layout) (t : Ty) (a b : Int) :
    foldInt l t op a b = foldInt l t op' b a ∨
      (foldInt l t op a b).isOk = false ∧ (foldInt l t op' b a).isOk = false := by
  cases h with
  | add => exact .inl (by rw [foldInt, foldInt, Int.add_comm])
  | mul => exact .inl (by rw [foldInt, foldInt, Int.mul_comm])
  | bitAnd => exact .inl (by simp only [foldInt, Wide.bitwise, BitVec.and_comm])
  | bitOr => exact .inl (by simp only [foldInt, Wide.bitwise, BitVec.or_comm])
  | bitXor => exact .inl (by simp only [foldInt, Wide.bitwise, BitVec.xor_comm])
  | _ => exact .inr ⟨rfl, rfl⟩

/-- A float folds to a float, which always fits. -/
theorem foldFloat_mirrored (h : Mirrors op op') (a b : UInt64) :
    (foldFloat op a b).isOk = (foldFloat op' b a).isOk := by
  cases h <;> simp only [foldFloat, Except.isOk, Except.toBool]

theorem fits_mirrored (h : Mirrors op op') (l : Layout) (t : Ty) (x y : Const) :
    ((foldBinary l t op x y).bind (fitConst l t)).isOk = ((foldBinary l t op' y x).bind (fitConst l t)).isOk := by
  have hfloat : ∀ r : Except FoldCause UInt64, ((r.map Const.float).bind (fitConst l t)).isOk = r.isOk := by
    rintro (_ | _) <;> rfl
  have hfail : ∀ r : Except FoldCause Int, r.isOk = false →
      ((r.map Const.int).bind (fitConst l t)).isOk = false := by
    rintro (_ | _) hr
    · rfl
    · cases hr
  cases x with
  | int a =>
    cases y with
    | int b =>
      simp only [foldBinary]
      rcases foldInt_mirrored h l t a b with he | ⟨hl, hr⟩
      · rw [he]
      · rw [hfail _ hl, hfail _ hr]
    | float => rfl
  | float a =>
    cases y with
    | int => rfl
    | float b =>
      simp only [foldBinary]
      rw [hfloat, hfloat, foldFloat_mirrored h]

/-- Both orders have a value at a type, or neither does. -/
theorem evalConst_mirrored (h : Mirrors op op') (l : Layout) (t : Ty) (a b : Expr) (span span' : Span) :
    (evalConst l t (.binary span op a b)).isOk = (evalConst l t (.binary span' op' b a)).isOk := by
  simp only [evalConst]
  cases evalConst l t a with
  | error e => cases evalConst l t b <;> rfl
  | ok x =>
    cases evalConst l t b with
    | error e => rfl
    | ok y =>
      dsimp only
      rw [isOk_locate, isOk_locate, fits_mirrored h]

end

variable {scope : Scope} {b₀ c₀ : Builder} {P : Builder → Builder → Prop}

/-- Values of one type. -/
abbrev SameType : Typed → Builder → Typed → Builder → Prop := fun v _ w _ => v.ty = w.ty

theorem lowerLiteral_alike (env : Env) {e e' : Expr} (kind : LitKind) (expected : Option Ty)
    (h : ∀ t, (evalConst env.layout t e).isOk = (evalConst env.layout t e').isOk) :
    Attempt.Concords scope b₀ c₀ P SameType (lowerLiteral env e kind expected)
      (lowerLiteral env e' kind expected) := by
  have ht := h (literalType env kind expected)
  unfold lowerLiteral
  dsimp only
  cases hl : evalConst env.layout (literalType env kind expected) e with
  | error err =>
    cases hr : evalConst env.layout (literalType env kind expected) e' with
    | error err' => exact .reject _ _
    | ok c =>
      rw [hl, hr] at ht
      cases ht
  | ok c =>
    cases hr : evalConst env.layout (literalType env kind expected) e' with
    | error err =>
      rw [hl, hr] at ht
      cases ht
    | ok c' =>
      exact .lift_bind (V := anyResults) (.emit (emitConst_confined ..) (emitConst_confined ..) fun _ _ _ _ => trivial)
        fun _ _ => .pure fun _ _ _ => rfl

/-! ### Operands -/

/-- Pairs of typed values, crosswise. -/
def Crossed (p : Typed × Typed) (b : Builder) (q : Typed × Typed) (c : Builder) : Prop :=
  Same p.1 b q.2 c ∧ Same p.2 b q.1 c

/-- Two pieces of code in both orders, each with one outcome in all states. -/
theorem swap_bind {γ δ : Type} {W : γ → Builder → δ → Builder → Prop} {x y : Lower (Option Typed)}
    (hx : ∀ b₀ c₀, Lower.Concords scope b₀ c₀ anyBuilders (Accord Same) x x)
    (hy : ∀ b₀ c₀, Lower.Concords scope b₀ c₀ anyBuilders (Accord Same) y y)
    {f : Option Typed → Option Typed → Attempt γ} {g : Option Typed → Option Typed → Attempt δ}
    (k : ∀ v w v' w', Attempt.Concords scope b₀ c₀
      (fun b c => Accord Same v b v' c ∧ Accord Same w b w' c) W (f v w) (g w' v')) :
    Attempt.Concords scope b₀ c₀ P W (liftM x >>= fun v => liftM y >>= fun w => f v w)
      (liftM y >>= fun w => liftM x >>= fun v => g w v) := by
  refine ⟨⟨fun {s t} hst _ => ?_⟩⟩
  -- each piece is compared from where it starts on one side to where it starts on the other
  obtain ⟨xs, xscope⟩ := Lower.Concords.keeps hx hst.leftScope hst.now.left
  obtain ⟨yt, yscope⟩ := Lower.Concords.keeps hy hst.rightScope hst.now.right
  have hsx : Aligned scope s.builder t.builder (x s).2 t := ⟨hst.now, xscope, hst.rightScope, xs, .refl _⟩
  have hty : Aligned scope s.builder t.builder s (y t).2 := ⟨hst.now, hst.leftScope, yscope, .refl _, yt⟩
  obtain ⟨hxa, hxv⟩ := (hx _ _).run hty.rebase trivial
  obtain ⟨hya, hyv⟩ := (hy _ _).run hsx.rebase trivial
  have hend : Aligned scope b₀ c₀ (y (x s).2).2 (x (y t).2).2 :=
    ⟨hst.matched, hya.leftScope, hxa.rightScope, (hst.left.trans xs).trans hya.left,
      (hst.right.trans yt).trans hxa.right⟩
  exact (k _ _ _ _).run.run hend
    ⟨accord_persistent _ _ hya.left (.refl _) hxv, accord_persistent _ _ (.refl _) hxa.right hyv⟩

theorem of_comm {γ : Type} (x y : Option Typed) (f : Typed → Typed → Attempt γ) :
    (Attempt.of x >>= fun v => Attempt.of y >>= fun w => f v w) =
      (Attempt.of y >>= fun w => Attempt.of x >>= fun v => f v w) := by cases x <;> cases y <;> rfl

theorem lowerBoth_crossed {l r : Operand} (hl : l.Uniform) (hr : r.Uniform) (expected : Option Ty) :
    Attempt.Concords scope b₀ c₀ anyBuilders Crossed (lowerBoth l r expected) (lowerBoth r l expected) := by
  refine swap_bind (fun _ _ => (hl.lower expected).run) (fun _ _ => (hr.lower expected).run) fun x y x' y' => ?_
  rw [of_comm y' x']
  exact .of_both fun _ _ _ _ => .pure fun _ _ h => h

/-- A lone literal is lowered second on both sides, two operands in the order in which they stand. -/
theorem lowerOperands_crossed (op op' : BinaryOp) {l r : Operand} (hl : l.Uniform) (hr : r.Uniform)
    (span span' : Span) :
    Attempt.Concords scope b₀ c₀ anyBuilders Crossed (lowerOperands op l r span)
      (lowerOperands op' r l span') := by
  unfold lowerOperands
  cases literalKind l.expr with
  | none =>
    cases literalKind r.expr with
    | none => exact lowerBoth_crossed hl hr none
    | some b => exact .adapted_bind hl hr fun _ _ _ _ => .pure fun _ _ h => h
  | some a =>
    cases literalKind r.expr with
    | none => exact .adapted_bind hr hl fun _ _ _ _ => .pure fun _ _ h => ⟨h.2, h.1⟩
    | some b =>
      have hd := unify?_default a b
      dsimp only
      cases hab : a.unify? b with
      | none =>
        cases hba : b.unify? a with
        | none => exact .reject _ _
        | some k => simp [hab, hba] at hd
      | some k =>
        cases hba : b.unify? a with
        | none => simp [hab, hba] at hd
        | some k' =>
          obtain hk : k.defaultType = k'.defaultType := by simpa [hab, hba] using hd
          dsimp only
          rw [hk]
          exact lowerBoth_crossed hl hr _

/-! ### Operators -/

theorem meet_default (l r : Expr) :
    ((literalKind l).bind fun a => (literalKind r).bind a.unify?).map LitKind.defaultType =
      ((literalKind r).bind fun b => (literalKind l).bind b.unify?).map LitKind.defaultType := by
  cases literalKind l with
  | none => cases literalKind r <;> rfl
  | some a =>
    cases literalKind r with
    | none => rfl
    | some b => exact unify?_default a b

theorem folds_comm (env : Env) (l r : Expr) {kind kind' : LitKind} (h : kind.defaultType = kind'.defaultType) :
    folds env r l kind' = folds env l r kind := by rw [folds, folds, h, Bool.and_comm]

/-- Two literals are compared while lowering in both orders or in neither. -/
theorem foldComparison?_mirrored (env : Env) (op op' : BinaryOp) (l r : Expr) :
    foldComparison? env op l r = none ∧ foldComparison? env op' r l = none ∨
      ∃ x y, foldComparison? env op l r = some x ∧ foldComparison? env op' r l = some y ∧
        Attempt.Concords scope b₀ c₀ anyBuilders Same x y := by
  have hmeet := meet_default l r
  rcases foldComparison?_eq env op l r with ⟨hn, hl⟩ | ⟨kind, hl, hx⟩ <;>
    rcases foldComparison?_eq env op' r l with ⟨hn', hr⟩ | ⟨kind', hr, hy⟩
  · exact .inl ⟨hn, hn'⟩
  · simp [hl, hr] at hmeet
  · simp [hl, hr] at hmeet
  · have hd : kind.defaultType = kind'.defaultType := by simpa [hl, hr] using hmeet
    rw [folds_comm env l r hd] at hy
    rcases hx with ⟨hf, d, hx⟩ | ⟨hf, x, hx, hex⟩ <;> rcases hy with ⟨hf', e, hy⟩ | ⟨hf', y, hy, hey⟩
    · exact .inr ⟨_, _, hx, hy, .reject d e⟩
    · rw [hf] at hf'
      cases hf'
    · rw [hf] at hf'
      cases hf'
    · exact .inr ⟨_, _, hex, hey, .plain_value hx hy rfl⟩

theorem computes_comm (t u : Ty) : computes t u = computes u t := by
  by_cases h : t = u
  · rw [h]
  · rw [computes, computes, beq_false_of_ne h, beq_false_of_ne (Ne.symm h), Bool.and_false, Bool.and_false]

theorem compares_mirrored {op op' : BinaryOp} (h : Mirrors op op') (t u : Ty) :
    compares op t u = compares op' u t := by
  unfold compares
  rw [h.isOrdering_eq]
  by_cases he : t = u
  · rw [he]
  · rw [beq_false_of_ne he, beq_false_of_ne (Ne.symm he)]
    simp only [Bool.false_and, Bool.false_or, Bool.or_comm]

theorem combines_comm {op : BinaryOp} (h : op.isShift = false) (t u : Ty) : combines op t u = combines op u t := by
  by_cases he : t = u
  · rw [he]
  · simp [combines, h, beq_false_of_ne he, beq_false_of_ne (Ne.symm he)]

/-- The types of crossed operands decide alike. -/
theorem lowerTyped_mirrored (env : Env) {op op' : BinaryOp} (h : Mirrors op op') {l r l' r' : Typed}
    (hl : l.ty = r'.ty) (hr : r.ty = l'.ty) (span span' : Span) :
    Attempt.Concords scope b₀ c₀ P Same
      (if op.isArithmetic then lowerArithmetic env op l r span
      else if op.isComparison then lowerComparison op l r span
      else lowerBitwise env op l r span)
      (if op'.isArithmetic then lowerArithmetic env op' l' r' span'
      else if op'.isComparison then lowerComparison op' l' r' span'
      else lowerBitwise env op' l' r' span') := by
  rw [h.isArithmetic_eq, h.isComparison_eq]
  cases hc : op.isComparison with
  | true =>
    have ha : op.isArithmetic = false := by cases h <;> first | rfl | cases hc
    rw [ha]
    exact lowerComparison_concords (by rw [hl, hr, compares_mirrored h]) span span'
  | false =>
    obtain ⟨rfl, hdiv, hshift⟩ := h.eq_of_not_comparison hc
    split
    · rename_i harith
      refine lowerArithmetic_concords env harith (by rw [hl, hr, computes_comm]) (fun hty => ?_)
        (fun b c _ _ => by simp [dividesByZero, hdiv]) span span'
      simp only [computes, Bool.and_eq_true, beq_iff_eq] at hty
      exact hty.2.trans hr
    · refine lowerBitwise_concords env (by rw [hl, hr, combines_comm hshift]) (fun hty => ?_) span span'
      simp only [combines, hshift, Bool.false_eq_true, if_false, Bool.and_eq_true, beq_iff_eq] at hty
      exact hty.1.trans hr

theorem lowerBinary_mirrored (env : Env) {op op' : BinaryOp} (h : Mirrors op op') {l r : Operand} (hl : l.Uniform)
    (hr : r.Uniform) (span span' : Span) :
    Attempt.Concords scope b₀ c₀ anyBuilders Same (lowerBinary env op l r span)
      (lowerBinary env op' r l span') := by
  have hrun : Attempt.Concords scope b₀ c₀ anyBuilders Same _ _ :=
    (lowerOperands_crossed op op' hl hr span span').bind fun p q =>
      .of_pre (fun _ _ hpq => ⟨hpq.1.ty, hpq.2.ty⟩) fun hty : p.1.ty = q.2.ty ∧ p.2.ty = q.1.ty =>
        lowerTyped_mirrored env h hty.1 hty.2 span span'
  unfold lowerBinary
  simp only [h.not_isLogical.1, h.not_isLogical.2, h.isComparison_eq, Bool.false_eq_true, ↓reduceIte]
  cases hc : op.isComparison with
  | false => simpa only [hc, h.isComparison_eq, Bool.false_eq_true, ↓reduceIte] using hrun
  | true =>
    simp only [↓reduceIte]
    rcases foldComparison?_mirrored env op op' l.expr r.expr with ⟨hx, hy⟩ | ⟨x, y, hx, hy, hxy⟩
    · rw [hx, hy]
      simpa only [hc, h.isComparison_eq, ↓reduceIte] using hrun
    · rw [hx, hy]
      exact hxy

/-- An expression has one type, or none, with its operands in either order. -/
theorem lowerExpr_mirrored {env : Env} (ha : env.allocator.IsConfined) {op op' : BinaryOp} (h : Mirrors op op')
    (a b : Expr) (span span' : Span) (expected : Option Ty) :
    Attempt.Concords scope b₀ c₀ anyBuilders SameType (lowerExpr env (.binary span op a b) expected)
      (lowerExpr env (.binary span' op' b a) expected) := by
  rw [lowerExpr, lowerExpr, literalKind_mirrored h a b span span']
  split
  · exact lowerLiteral_alike env _ expected fun t => evalConst_mirrored h env.layout t a b span span'
  · exact (lowerBinary_mirrored env h (operand_uniform ha a) (operand_uniform ha b) span span').imp
      (fun _ _ => id) fun _ _ _ _ hv => hv.ty

theorem Accord.map_ty {r q : Option Typed} {b c : Builder} (h : Accord SameType r b q c) :
    r.map (·.ty) = q.map (·.ty) := by
  rcases r with _ | v <;> rcases q with _ | w
  · rfl
  · exact h.elim
  · exact h.elim
  · exact congrArg some h

/-- Wherever in a function, `a + b` has the type that `b + a` has, and `a < b` that of `b > a`, or neither has
one. -/
theorem operand_order_keeps_types {env : Env} (ha : env.allocator.IsConfined) {op op' : BinaryOp}
    (h : Mirrors op op') (a b : Expr) (span span' : Span) (expected : Option Ty) {s : State}
    (hs : Positioned s.builder) :
    ((lowerExpr env (.binary span op a b) expected).run s).1.map (·.ty) =
      ((lowerExpr env (.binary span' op' b a) expected).run s).1.map (·.ty) := by
  obtain ⟨-, hv⟩ := (lowerExpr_mirrored ha h a b span span' expected).run.run (.self hs) trivial
  exact hv.map_ty

/-- A literal takes the type of a wide value from both sides. -/
theorem operand_order_keeps_types_wide :
    let env : Env := ⟨{}, (Collection.ofProgram {} ⟨[], [emptyBody]⟩).tables, .collector, .unit, "f"⟩
    let one : Expr := .int ⟨0, 1⟩ 1
    let wide : Expr := .cast ⟨4, 12⟩ (.int ⟨4, 5⟩ 2) (.named "i64")
    ((lowerExpr env (.binary ⟨0, 12⟩ .add one wide) none).run atEntry).1.map (·.ty) = some (.signed .w64) ∧
      ((lowerExpr env (.binary ⟨0, 12⟩ .add wide one) none).run atEntry).1.map (·.ty) = some (.signed .w64) := by
  intro env one wide
  have hty : ((lowerExpr env (.binary ⟨0, 12⟩ .add one wide) none).run atEntry).1.map (·.ty) =
      some (.signed .w64) := by decide +kernel
  have hc : env.allocator.IsConfined := collector_confined
  have h := operand_order_keeps_types hc .add one wide ⟨0, 12⟩ ⟨0, 12⟩ none (s := atEntry) ⟨by decide, rfl⟩
  exact ⟨hty, h ▸ hty⟩

end BlockForge.Lowering
