import BlockForge.Proofs.Lowering.Concord

/-!
# Lowering goes one way in one scope

By induction over expressions: from all states in one scope an expression is lowered with one outcome, a type
or a failure, and its code keeps to the current block and to new blocks. The rules of the operators are set
apart as conditions on the types of the operands.
-/

namespace BlockForge.Lowering

open Diagnostic (Diag)
open Ir (BlockId Builder Emit ValueId ValueKind)
open Ir.Emit
open Source (BinaryOp Expr Span TypeExpr UnaryOp)
open StateM
open BlockForge.Types (CastKind LitKind Ty)

/-- No condition on the builders. -/
abbrev anyBuilders : Builder → Builder → Prop := fun _ _ => True

/-- No condition on the results. -/
abbrev anyResults {α β : Type} : α → Builder → β → Builder → Prop := fun _ _ _ _ => True

/-- An operand whose lowering has one outcome in all states of one scope. -/
structure Operand.Uniform (o : Operand) : Prop where
  lower : ∀ {scope : Scope} {b₀ c₀ : Builder} (expected : Option Ty),
    Attempt.Concords scope b₀ c₀ anyBuilders Same (o.lower expected) (o.lower expected)

variable {scope : Scope} {b₀ c₀ : Builder} {P : Builder → Builder → Prop}

theorem Accord.isSome_eq {α β : Type} {V : α → Builder → β → Builder → Prop} {r : Option α} {q : Option β}
    {b c : Builder} (h : Accord V r b q c) : r.isSome = q.isSome := by
  cases r <;> cases q <;> first | rfl | exact h.elim

theorem Accord.of_isSome_eq {α β : Type} {r : Option α} {q : Option β} {b c : Builder}
    (h : r.isSome = q.isSome) : Accord anyResults r b q c := by
  cases r <;> cases q <;> simp_all [Accord, anyResults]

/-! ### Steps -/

/-- Code for a value of a type. -/
abbrev Attempt.typed (x : Emit ValueId) (t : Ty) : Attempt Typed := do
  let value ← Lower.emit x
  pure ⟨value, t⟩

namespace Attempt.Concords

variable {α β γ δ : Type} {W : γ → Builder → δ → Builder → Prop}

/-- Goes on with typed values of one type. -/
theorem typed_bind {x y : Attempt Typed} {f : Typed → Attempt γ} {g : Typed → Attempt δ}
    (h : Concords scope b₀ c₀ P Same x y)
    (k : ∀ a d t, Concords scope b₀ c₀ (fun b c => Same ⟨a, t⟩ b ⟨d, t⟩ c) W (f ⟨a, t⟩) (g ⟨d, t⟩)) :
    Concords scope b₀ c₀ P W (x >>= f) (y >>= g) := by
  refine h.bind fun v w => .of_pre (fun _ _ hv => hv.ty) fun ht => ?_
  obtain ⟨a, t⟩ := v
  obtain ⟨d, u⟩ := w
  obtain rfl : t = u := ht
  exact k a d t

/-- Code whose result does not matter. -/
theorem step {x : Emit α} {y : Emit β} {f : α → Attempt γ} {g : β → Attempt δ} (hx : IsConfined x)
    (hy : IsConfined y) (k : ∀ a d, Concords scope b₀ c₀ anyBuilders W (f a) (g d)) :
    Concords scope b₀ c₀ P W (liftM (Lower.emit x) >>= f) (liftM (Lower.emit y) >>= g) :=
  lift_bind (V := anyResults) (.emit hx hy fun _ _ _ _ => trivial) k

/-- Code that only one side has. -/
theorem step_left {x : Emit α} {f : α → Attempt γ} {z : Attempt δ} (hx : IsConfined x)
    (k : ∀ a, Concords scope b₀ c₀ anyBuilders W (f a) z) :
    Concords scope b₀ c₀ P W (liftM (Lower.emit x) >>= f) z :=
  ⟨⟨fun hst _ => (k _).run.run
    ⟨hst.matched, hst.leftScope, hst.rightScope, hx.after hst.left, hst.right⟩ trivial⟩⟩

theorem step_right {y : Emit β} {g : β → Attempt δ} {z : Attempt γ} (hy : IsConfined y)
    (k : ∀ d, Concords scope b₀ c₀ anyBuilders W z (g d)) :
    Concords scope b₀ c₀ P W z (liftM (Lower.emit y) >>= g) :=
  ⟨⟨fun hst _ => (k _).run.run
    ⟨hst.matched, hst.leftScope, hst.rightScope, hst.left, hy.after hst.right⟩ trivial⟩⟩

/-- Code for a value of a type. -/
theorem value {x y : Emit ValueId} (hx : IsConfined x) (hy : IsConfined y) (t : Ty)
    (hz : ∀ b c, Matched b c → P b c → t.isConvertible = true → ZeroAlike (x b).1 (x b).2 (y c).1 (y c).2) :
    Concords scope b₀ c₀ P Same (typed x t) (typed y t) :=
  lift_bind (V := fun a b d c => t.isConvertible = true → ZeroAlike a b d c) (.emit hx hy hz)
    fun _ _ => .pure fun _ _ h => ⟨rfl, h⟩

/-- The result of an instruction. -/
theorem result {x y : Emit ValueId} (hx : IsConfined x) (hy : IsConfined y) (gx : OfKind IsResult x)
    (gy : OfKind IsResult y) (t : Ty) :
    Concords scope b₀ c₀ P Same (typed x t) (typed y t) :=
  value hx hy t fun _ _ h _ _ => zeroAlike_of_results gx gy h

/-- A value of a type that no division looks into. -/
theorem plain_value {x y : Emit ValueId} (hx : IsConfined x) (hy : IsConfined y) {t : Ty}
    (ht : t.isConvertible = false) :
    Concords scope b₀ c₀ P Same (typed x t) (typed y t) :=
  value hx hy t fun _ _ _ _ h => by
    rw [ht] at h
    cases h

/-- Goes on whether or not there is a result. -/
theorem run_bind {V : α → Builder → β → Builder → Prop} {x : Attempt α} {y : Attempt β}
    {f : Option α → Attempt γ} {g : Option β → Attempt δ} (h : Concords scope b₀ c₀ P V x y)
    (hnone : Concords scope b₀ c₀ anyBuilders W (f none) (g none))
    (hsome : ∀ a d, Concords scope b₀ c₀ (V a · d ·) W (f (some a)) (g (some d))) :
    Concords scope b₀ c₀ P W (liftM x.run >>= f) (liftM y.run >>= g) := by
  refine lift_bind h.run ?_
  rintro (_ | a) (_ | d)
  · exact hnone.imp (fun _ _ _ => trivial) fun _ _ _ _ => id
  · exact .of_pre (fun _ _ hv => hv) False.elim
  · exact .of_pre (fun _ _ hv => hv) False.elim
  · exact hsome a d

end Attempt.Concords

open Attempt.Concords (step)

theorem unit_concords : Lower.Concords scope b₀ c₀ P Same Lower.unit Lower.unit := by
  refine .bind (V := anyResults) (.emit (constInt_confined ..) (constInt_confined ..) fun _ _ _ _ => trivial)
    fun a d => .pure fun _ _ _ => ⟨rfl, fun h => ?_⟩
  cases h

theorem resolve_concords (env : Env) (t : TypeExpr) (span : Span) :
    Attempt.Concords scope b₀ c₀ P (fun a _ d _ => a = d) (Attempt.resolve env t span)
      (Attempt.resolve env t span) := by
  unfold Attempt.resolve
  split
  · exact .pure fun _ _ _ => rfl
  · exact .reject _ _

theorem lowerAs_concords {o : Operand} (ho : o.Uniform) (target : Ty) (context : String) :
    Attempt.Concords scope b₀ c₀ anyBuilders anyResults (o.lowerAs target context)
      (o.lowerAs target context) := by
  refine (ho.lower _).typed_bind fun a d t => ?_
  unfold Attempt.coerce
  dsimp only
  split
  · exact .pure fun _ _ _ => trivial
  · exact .reject _ _

theorem visit_concords {o : Operand} (ho : o.Uniform) :
    Lower.Concords scope b₀ c₀ anyBuilders anyResults o.visit o.visit :=
  .bind (ho.lower none).run fun _ _ => .pure fun _ _ _ => trivial

theorem visitAll_concords {os : List Operand} (hos : ∀ o ∈ os, o.Uniform) :
    Lower.Concords scope b₀ c₀ anyBuilders anyResults (visitAll os) (visitAll os) := by
  induction os with
  | nil => exact .pure fun _ _ _ => trivial
  | cons o rest ih =>
    exact .bind (visit_concords (hos o (by simp))) fun _ _ => ih fun o ho => hos o (by simp [ho])

/-! ### Literals and variables -/

theorem emitConst_zeroAlike (env : Env) (t : Ty) (k : Const) {b c : Builder} (h : Matched b c) :
    ZeroAlike (emitConst env t k b).1 (emitConst env t k b).2 (emitConst env t k c).1 (emitConst env t k c).2 := by
  cases k with
  | int v => exact zeroAlike_pushValue h ..
  | float bits => exact zeroAlike_pushValue h ..

theorem lowerLiteral_concords (env : Env) (e : Expr) (kind : LitKind) (expected : Option Ty) :
    Attempt.Concords scope b₀ c₀ P Same (lowerLiteral env e kind expected)
      (lowerLiteral env e kind expected) := by
  unfold lowerLiteral
  dsimp only
  split
  · exact .value (emitConst_confined ..) (emitConst_confined ..) _ fun _ _ h _ _ => emitConst_zeroAlike env _ _ h
  · exact .reject _ _

theorem lowerIdent_concords (env : Env) (name : String) (span : Span) :
    Attempt.Concords scope b₀ c₀ P Same (lowerIdent env name span) (lowerIdent env name span) := by
  refine .get_bind fun s t hst _ => ?_
  rw [hst.leftScope, hst.rightScope]
  split
  · exact .result (load_confined ..) (load_confined ..) (load_ofKind ..) (load_ofKind ..) _
  · exact .fail
  · exact .reject _ _

/-! ### Operators -/

theorem lowerUnary_concords (op : UnaryOp) {o : Operand} (ho : o.Uniform) (span : Span) (expected : Option Ty) :
    Attempt.Concords scope b₀ c₀ anyBuilders Same (lowerUnary op o span expected)
      (lowerUnary op o span expected) := by
  unfold lowerUnary
  dsimp only
  refine (ho.lower _).typed_bind fun a d t => ?_
  cases op with
  | plus =>
    dsimp only
    split
    · exact .pure fun _ _ h => h
    · exact .reject _ _
  | neg =>
    dsimp only
    split
    · exact .result (fneg_confined ..) (fneg_confined ..) (fneg_ofKind ..) (fneg_ofKind ..) _
    · split
      · exact .result (neg_confined ..) (neg_confined ..) (neg_ofKind ..) (neg_ofKind ..) _
      · exact .reject _ _
  | not =>
    dsimp only
    split
    · exact .result (not_confined ..) (not_confined ..) (not_ofKind ..) (not_ofKind ..) _
    · exact .reject _ _
  | bitNot =>
    dsimp only
    split
    · exact .result (not_confined ..) (not_confined ..) (not_ofKind ..) (not_ofKind ..) _
    · exact .reject _ _

/-- Only types with convertible values convert to one. -/
theorem isConvertible_of_cast {l : Types.Layout} {source target : Ty} {kind : CastKind}
    (hk : l.classifyCast? source target = some kind) (ht : target.isConvertible = true) :
    source.isConvertible = true := by
  unfold Types.Layout.classifyCast? at hk
  split at hk
  · rename_i he
    rwa [he]
  · cases source <;> cases target <;> simp_all [Ty.isConvertible, Types.Layout.intShape?]

theorem lowerCast_concords (env : Env) {o : Operand} (ho : o.Uniform) (t : TypeExpr) (span : Span) :
    Attempt.Concords scope b₀ c₀ anyBuilders Same (lowerCast env o t span) (lowerCast env o t span) := by
  refine (resolve_concords env t span).bind fun target target' => .of_pre (fun _ _ h => h) ?_
  rintro rfl
  refine Attempt.Concords.typed_bind ((ho.lower _).imp (fun _ _ _ => trivial) fun _ _ _ _ => id) fun a d u => ?_
  dsimp only
  split
  · exact .reject _ _
  · rename_i kind hk
    refine .value (emitCast_confined ..) (emitCast_confined ..) _ fun b c h hp ht => ?_
    by_cases hid : kind = .identity
    · subst hid
      exact hp.zero (isConvertible_of_cast hk ht)
    · exact zeroAlike_of_results (emitCast_ofKind hid ..) (emitCast_ofKind hid ..) h

/-! ### Binary operators -/

namespace Attempt.Concords

variable {γ δ : Type} {W : γ → Builder → δ → Builder → Prop}

/-- Goes on with two results, if there are both. -/
theorem of_both {f : Typed → Typed → Attempt γ} {g : Typed → Typed → Attempt δ} {x y x' y' : Option Typed}
    (k : ∀ v w v' w', Concords scope b₀ c₀ (fun b c => Same v b v' c ∧ Same w b w' c) W (f v w) (g v' w')) :
    Concords scope b₀ c₀ (fun b c => Accord Same x b x' c ∧ Accord Same y b y' c) W
      (Attempt.of x >>= fun v => Attempt.of y >>= fun w => f v w)
      (Attempt.of x' >>= fun v => Attempt.of y' >>= fun w => g v w) := by
  cases x with
  | none =>
    cases x' with
    | none => exact .fail
    | some _ => exact .of_pre (fun _ _ h => h.1) False.elim
  | some v =>
    cases x' with
    | none => exact .of_pre (fun _ _ h => h.1) False.elim
    | some v' =>
      cases y with
      | none =>
        cases y' with
        | none => exact .fail
        | some _ => exact .of_pre (fun _ _ h => h.2) False.elim
      | some w =>
        cases y' with
        | none => exact .of_pre (fun _ _ h => h.2) False.elim
        | some w' => exact k v w v' w'

/-- One operand takes the type of the other. -/
theorem adapted_bind {o p : Operand} (ho : o.Uniform) (hp : p.Uniform) {f : Typed → Typed → Attempt γ}
    {g : Typed → Typed → Attempt δ}
    (k : ∀ v w v' w', Concords scope b₀ c₀ (fun b c => Same v b v' c ∧ Same w b w' c) W (f v w) (g v' w')) :
    Concords scope b₀ c₀ anyBuilders W (o.lower none >>= fun v => p.lower (some v.ty) >>= fun w => f v w)
      (o.lower none >>= fun v => p.lower (some v.ty) >>= fun w => g v w) := by
  refine (ho.lower none).typed_bind fun c d t => ?_
  refine ((frame (fun _ _ => hp.lower (some t)) (same_persistent ⟨c, t⟩ ⟨d, t⟩)).imp
    (fun _ _ h => ⟨trivial, h⟩) fun _ _ _ _ => id).bind fun w w' => ?_
  exact (k ⟨c, t⟩ w ⟨d, t⟩ w').imp (fun _ _ h => ⟨h.2, h.1⟩) fun _ _ _ _ => id

end Attempt.Concords

theorem lowerBoth_concords {l r : Operand} (hl : l.Uniform) (hr : r.Uniform) (expected : Option Ty) :
    Attempt.Concords scope b₀ c₀ anyBuilders SameBoth (lowerBoth l r expected) (lowerBoth l r expected) := by
  refine .lift_bind (hl.lower expected).run fun x x' => ?_
  refine .lift_bind ((Lower.Concords.frame (fun _ _ => (hr.lower expected).run) (accord_persistent x x')).imp
    (fun _ _ h => ⟨trivial, h⟩) fun _ _ _ _ => id) fun y y' => ?_
  exact (Attempt.Concords.of_both fun _ _ _ _ => .pure fun _ _ h => h).imp (fun _ _ h => ⟨h.2, h.1⟩)
    fun _ _ _ _ => id

theorem lowerOperands_concords (op : BinaryOp) {l r : Operand} (hl : l.Uniform) (hr : r.Uniform) (span : Span) :
    Attempt.Concords scope b₀ c₀ anyBuilders SameBoth (lowerOperands op l r span)
      (lowerOperands op l r span) := by
  unfold lowerOperands
  split
  · split
    · exact lowerBoth_concords hl hr _
    · exact .reject _ _
  · exact .adapted_bind hr hl fun _ _ _ _ => .pure fun _ _ h => ⟨h.2, h.1⟩
  · exact .adapted_bind hl hr fun _ _ _ _ => .pure fun _ _ h => h
  · exact lowerBoth_concords hl hr _

/-- The operands that arithmetic takes. -/
def computes (t u : Ty) : Bool := t.isNumeric && t == u

/-- The operands that a comparison takes. -/
def compares (op : BinaryOp) (t u : Ty) : Bool :=
  if op.isOrdering then t == u && t.isOrdered
  else (t == u && t.isEquatable) || nullAgainst t u || nullAgainst u t

/-- The operands that a bitwise operator takes. -/
def combines (op : BinaryOp) (t u : Ty) : Bool :=
  if op.isShift then t.isInteger && u.isInteger else t == u && (t.isInteger || t == .bool)

/-- Whether a division is by the constant zero. -/
def dividesByZero (op : BinaryOp) (t : Ty) (r : ValueId) (b : Builder) : Bool :=
  op.isDivision && !t.isFloat && b.constIntValue? r == some 0

theorem lowerArithmetic_reject (env : Env) (op : BinaryOp) (l r : Typed) (span : Span)
    (h : computes l.ty r.ty = false) : ∃ d, lowerArithmetic env op l r span = Attempt.reject d := by
  unfold lowerArithmetic
  split
  · exact ⟨_, rfl⟩
  · rename_i hnum
    split
    · exact ⟨_, rfl⟩
    · rename_i heq
      simp_all [computes]

theorem lowerArithmetic_eq (env : Env) (op : BinaryOp) (l r : Typed) (span : Span)
    (h : computes l.ty r.ty = true) : lowerArithmetic env op l r span = (do
      if dividesByZero op l.ty r.value (← get).builder then
        Attempt.reject (Problem.constDivByZero span op.symbol)
      else
        match ← Lower.emit (emitArithmetic op l.ty (env.ir l.ty) l.value r.value) with
        | some value => pure ⟨value, l.ty⟩
        | none => Attempt.fail) := by
  simp only [computes, Bool.and_eq_true, beq_iff_eq] at h
  unfold lowerArithmetic
  rw [if_neg (by simp [h.1, ← h.2]), if_neg (by simp [h.2])]
  rfl

theorem lowerArithmetic_concords (env : Env) {op : BinaryOp} (hop : op.isArithmetic = true) {l r l' r' : Typed}
    (hty : computes l.ty r.ty = computes l'.ty r'.ty) (heq : computes l.ty r.ty = true → l.ty = l'.ty)
    (hz : ∀ b c, P b c → computes l.ty r.ty = true →
      dividesByZero op l.ty r.value b = dividesByZero op l'.ty r'.value c) (span span' : Span) :
    Attempt.Concords scope b₀ c₀ P Same (lowerArithmetic env op l r span)
      (lowerArithmetic env op l' r' span') := by
  cases h : computes l.ty r.ty with
  | false =>
    obtain ⟨d, hd⟩ := lowerArithmetic_reject env op l r span h
    obtain ⟨e, he⟩ := lowerArithmetic_reject env op l' r' span' (hty ▸ h)
    rw [hd, he]
    exact .reject d e
  | true =>
    rw [lowerArithmetic_eq env op l r span h, lowerArithmetic_eq env op l' r' span' (hty ▸ h), ← heq h]
    refine .get_bind fun s t _ hp => ?_
    rw [hz _ _ hp h, ← heq h]
    split
    · exact .reject _ _
    · obtain ⟨x, hx, gx⟩ := emitArithmetic_ofKind hop l.ty (env.ir l.ty) l.value r.value
      obtain ⟨y, hy, gy⟩ := emitArithmetic_ofKind hop l.ty (env.ir l.ty) l'.value r'.value
      refine Attempt.Concords.lift_bind (V := Accord ZeroAlike) (.emit (emitArithmetic_confined ..)
        (emitArithmetic_confined ..) fun b c hm _ => ?_) ?_
      · rw [hx, hy]
        exact zeroAlike_of_results gx gy hm
      · rintro (_ | v) (_ | w)
        · exact .fail
        · exact .of_pre (fun _ _ hv => hv) False.elim
        · exact .of_pre (fun _ _ hv => hv) False.elim
        · exact .pure fun _ _ hv => ⟨rfl, fun _ => hv⟩

theorem lowerComparison_eq (op : BinaryOp) (l r : Typed) (span : Span) :
    (compares op l.ty r.ty = false ∧ ∃ d, lowerComparison op l r span = Attempt.reject d) ∨
      compares op l.ty r.ty = true ∧ ∃ x, IsConfined x ∧
        lowerComparison op l r span = Attempt.typed x .bool := by
  unfold lowerComparison compares
  split
  · split
    · rename_i hne
      exact .inl ⟨by simp [hne], _, rfl⟩
    · rename_i heq
      split
      · rename_i hord
        exact .inl ⟨by simp_all, _, rfl⟩
      · rename_i hord
        exact .inr ⟨by simp_all, _, emitOrdering_confined .., rfl⟩
  · split
    · rename_i h
      exact .inr ⟨h, _, emitEquality_confined .., rfl⟩
    · rename_i h
      exact .inl ⟨by simpa using h, _, rfl⟩

theorem lowerComparison_concords {op op' : BinaryOp} {l r l' r' : Typed}
    (hty : compares op l.ty r.ty = compares op' l'.ty r'.ty) (span span' : Span) :
    Attempt.Concords scope b₀ c₀ P Same (lowerComparison op l r span) (lowerComparison op' l' r' span') := by
  rcases lowerComparison_eq op l r span with ⟨h, d, hd⟩ | ⟨h, x, hx, he⟩
  · rcases lowerComparison_eq op' l' r' span' with ⟨-, e, he⟩ | ⟨h', -⟩
    · rw [hd, he]
      exact .reject d e
    · rw [hty, h'] at h
      cases h
  · rcases lowerComparison_eq op' l' r' span' with ⟨h', -⟩ | ⟨-, y, hy, he'⟩
    · rw [hty, h'] at h
      cases h
    · rw [he, he']
      exact .plain_value hx hy rfl

theorem lowerBitwise_eq (env : Env) (op : BinaryOp) (l r : Typed) (span : Span) :
    (combines op l.ty r.ty = false ∧ ∃ d, lowerBitwise env op l r span = Attempt.reject d) ∨
      combines op l.ty r.ty = true ∧ ∃ x, IsConfined x ∧ OfKind IsResult x ∧
        lowerBitwise env op l r span = Attempt.typed x l.ty := by
  unfold lowerBitwise combines
  dsimp only
  split
  · split
    · rename_i h
      exact .inr ⟨h, _, emitShift_confined .., emitShift_ofKind .., rfl⟩
    · rename_i h
      exact .inl ⟨by simpa using h, _, rfl⟩
  · split
    · rename_i h
      exact .inr ⟨h, _, emitBitwise_confined .., emitBitwise_ofKind .., rfl⟩
    · rename_i h
      exact .inl ⟨by simpa using h, _, rfl⟩

theorem lowerBitwise_concords (env : Env) {op : BinaryOp} {l r l' r' : Typed}
    (hty : combines op l.ty r.ty = combines op l'.ty r'.ty) (heq : combines op l.ty r.ty = true → l.ty = l'.ty)
    (span span' : Span) :
    Attempt.Concords scope b₀ c₀ P Same (lowerBitwise env op l r span) (lowerBitwise env op l' r' span') := by
  rcases lowerBitwise_eq env op l r span with ⟨h, d, hd⟩ | ⟨h, x, hx, gx, he⟩
  · rcases lowerBitwise_eq env op l' r' span' with ⟨-, e, he⟩ | ⟨h', -⟩
    · rw [hd, he]
      exact .reject d e
    · rw [hty, h'] at h
      cases h
  · rcases lowerBitwise_eq env op l' r' span' with ⟨h', -⟩ | ⟨-, y, hy, gy, he'⟩
    · rw [hty, h'] at h
      cases h
    · rw [he, he', heq h]
      exact .result hx hy gx gy _

/-- Two literals of one kind, if both can be computed at its default type. -/
def folds (env : Env) (l r : Expr) (kind : LitKind) : Bool :=
  (evalConst env.layout kind.defaultType l).isOk && (evalConst env.layout kind.defaultType r).isOk

theorem foldComparison?_eq (env : Env) (op : BinaryOp) (l r : Expr) :
    foldComparison? env op l r = none ∧ ((literalKind l).bind fun a => (literalKind r).bind a.unify?) = none ∨
      ∃ kind, ((literalKind l).bind fun a => (literalKind r).bind a.unify?) = some kind ∧
        ((folds env l r kind = false ∧ ∃ d, foldComparison? env op l r = some (Attempt.reject d)) ∨
          folds env l r kind = true ∧ ∃ x, IsConfined x ∧
            foldComparison? env op l r = some (Attempt.typed x .bool)) := by
  unfold foldComparison? folds
  cases literalKind l with
  | none => exact .inl ⟨rfl, rfl⟩
  | some a =>
    cases literalKind r with
    | none => exact .inl ⟨rfl, rfl⟩
    | some b =>
      simp only [Option.bind_eq_bind, Option.bind_some]
      cases a.unify? b with
      | none => exact .inl ⟨rfl, rfl⟩
      | some kind =>
        refine .inr ⟨kind, rfl, ?_⟩
        simp only [Option.bind_some]
        split
        · rename_i x y hx hy
          rw [hx, hy]
          exact .inr ⟨rfl, _, constBool_confined _, rfl⟩
        · rename_i err hx
          rw [hx]
          exact .inl ⟨rfl, _, rfl⟩
        · rename_i err hy _
          rw [hy]
          exact .inl ⟨by simp [Except.isOk, Except.toBool], _, rfl⟩

theorem lowerBoolOperand_concords (op : BinaryOp) {o : Operand} (ho : o.Uniform) :
    Attempt.Concords scope b₀ c₀ anyBuilders anyResults (lowerBoolOperand op o) (lowerBoolOperand op o) := by
  refine (ho.lower _).typed_bind fun a d t => ?_
  dsimp only
  split
  · exact .pure fun _ _ _ => trivial
  · exact .reject _ _

/-- A new block. -/
theorem appendBlock_concords (name : String) :
    Lower.Concords scope b₀ c₀ P (fun i _ j _ => b₀.function.blocks.size ≤ i.index ∧
      c₀.function.blocks.size ≤ j.index) (Lower.emit (appendBlock name)) (Lower.emit (appendBlock name)) :=
  .emit_after (fun _ k => appendBlock_after k name) fun _ k => appendBlock_after k name

/-- The position goes to new blocks. -/
theorem positionAt_concords {i j : BlockId} (hi : b₀.function.blocks.size ≤ i.index)
    (hj : c₀.function.blocks.size ≤ j.index) :
    Lower.Concords scope b₀ c₀ P anyResults (Lower.emit (positionAt i)) (Lower.emit (positionAt j)) :=
  (Lower.Concords.emit_after (A := fun _ => True) (B := fun _ => True)
    (fun _ k => (positionAt_after k hi).imp fun _ _ h => ⟨h, trivial⟩)
    fun _ k => (positionAt_after k hj).imp fun _ _ h => ⟨h, trivial⟩).imp (fun _ _ => id) fun _ _ _ _ _ => trivial

theorem lowerShortCircuit_concords (op : BinaryOp) {l r : Operand} (hl : l.Uniform) (hr : r.Uniform) :
    Attempt.Concords scope b₀ c₀ anyBuilders Same (lowerShortCircuit op l r) (lowerShortCircuit op l r) := by
  unfold lowerShortCircuit
  dsimp only
  generalize (if (op == .and) = true then "and" else "or") = word
  refine (lowerBoolOperand_concords op hl).bind fun v w => .get_bind fun s t hst _ => ?_
  obtain ⟨i, hi⟩ := Option.isSome_iff_exists.1 hst.now.left.current
  obtain ⟨j, hj⟩ := Option.isSome_iff_exists.1 hst.now.right.current
  rw [hi, hj]
  refine .bind (V := anyResults) (.of fun _ _ _ => trivial) fun _ _ => ?_
  refine .lift_bind (appendBlock_concords _) fun rhs rhs' => .of_pre (fun _ _ h => h) fun hrhs => ?_
  refine .lift_bind (appendBlock_concords _) fun merge merge' => .of_pre (fun _ _ h => h) fun hmerge => ?_
  refine step ?_ ?_ fun _ _ => ?_
  · split <;> exact condBr_confined ..
  · split <;> exact condBr_confined ..
  refine .lift_bind (positionAt_concords hrhs.1 hrhs.2) fun _ _ => ?_
  refine .lift_bind ((lowerBoolOperand_concords op hr).run.imp (fun _ _ _ => trivial) fun _ _ _ _ => id)
    fun y y' => .of_pre (fun _ _ h => h.isSome_eq) fun hy => ?_
  refine .get_bind fun s₁ t₁ _ _ => .get_bind fun s₂ t₂ _ _ => ?_
  -- each side joins unless its position is dead, and goes on in its second block
  split
  on_goal 1 => refine .step_left (br_confined _) fun _ => ?_
  all_goals
    split
    on_goal 1 => refine .step_right (br_confined _) fun _ => ?_
    all_goals
      refine .lift_bind (positionAt_concords hmerge.1 hmerge.2) fun _ _ => ?_
      refine .bind (V := anyResults) (.of fun _ _ _ => .of_isSome_eq hy) fun _ _ => ?_
      refine step (constBool_confined _) (constBool_confined _) fun _ _ => ?_
      exact .plain_value (phi_confined ..) (phi_confined ..) rfl

theorem lowerBinary_concords (env : Env) (op : BinaryOp) {l r : Operand} (hl : l.Uniform) (hr : r.Uniform)
    (span : Span) :
    Attempt.Concords scope b₀ c₀ anyBuilders Same (lowerBinary env op l r span)
      (lowerBinary env op l r span) := by
  unfold lowerBinary
  split
  · exact lowerShortCircuit_concords op hl hr
  · split
    · rename_i folded hf
      split at hf
      · rcases foldComparison?_eq env op l.expr r.expr with ⟨hn, -⟩ | ⟨kind, -, ⟨-, d, hd⟩ | ⟨-, x, hx, he⟩⟩
        · rw [hn] at hf
          cases hf
        · obtain rfl := Option.some.inj (hd.symm.trans hf)
          exact .reject d d
        · obtain rfl := Option.some.inj (he.symm.trans hf)
          exact .plain_value hx hx rfl
      · cases hf
    · refine (lowerOperands_concords op hl hr span).bind fun p q => ?_
      obtain ⟨v, w⟩ := p
      obtain ⟨v', w'⟩ := q
      refine .of_pre (p := v.ty = v'.ty ∧ w.ty = w'.ty) (fun _ _ h => ⟨h.1.ty, h.2.ty⟩) fun ⟨ht, hu⟩ => ?_
      dsimp only at ht hu ⊢
      split
      · rename_i hop
        refine lowerArithmetic_concords env hop (by rw [ht, hu]) (fun _ => ht) (fun b c h hc => ?_) span span
        have hconv : w.ty.isConvertible = true := by
          simp only [computes, Bool.and_eq_true, beq_iff_eq] at hc
          rw [← hc.2]
          cases hv : v.ty <;> simp_all [Ty.isNumeric, Ty.isInteger, Ty.isFloat, Ty.isConvertible]
        have hzero := (h.2.zero hconv).iff
        have hbeq : (b.constIntValue? w.value == some 0) = (c.constIntValue? w'.value == some 0) := by
          rw [Bool.eq_iff_iff, beq_iff_eq, beq_iff_eq]
          exact hzero
        rw [dividesByZero, dividesByZero, ht, hbeq]
      · split
        · exact lowerComparison_concords (by rw [ht, hu]) span span
        · exact lowerBitwise_concords env (by rw [ht, hu]) (fun _ => ht) span span

/-! ### Calls -/

theorem lowerArgs_concords (callee : String) (position : Nat) {args : List (Operand × Ty)}
    (hargs : ∀ a ∈ args, a.1.Uniform) :
    Lower.Concords scope b₀ c₀ anyBuilders (Accord anyResults) (lowerArgs callee position args)
      (lowerArgs callee position args) := by
  induction args generalizing position with
  | nil => exact .pure fun _ _ _ => trivial
  | cons arg rest ih =>
    obtain ⟨o, t⟩ := arg
    refine .bind (lowerAs_concords (hargs (o, t) (by simp)) t _).run fun v w =>
      .of_pre (fun _ _ h => h.isSome_eq) fun hv => ?_
    refine .bind ((ih (position + 1) fun a ha => hargs a (by simp [ha])).imp (fun _ _ _ => trivial)
      fun _ _ _ _ => id) fun vs ws => .of_pre (fun _ _ h => h.isSome_eq) fun hvs => ?_
    refine .pure fun _ _ _ => .of_isSome_eq ?_
    cases v <;> cases w <;> cases vs <;> cases ws <;> simp_all

/-- A call has a result unless the function returns `void`. -/
theorem call_ofKind (func : Ir.FuncId) (args : List ValueId) (name : String) {b : Builder}
    (hv : b.func.index < b.module.functions.size) :
    (call func args name).Sat b fun r b' =>
      if (b.module.function? func).elim Ir.Ty.void (·.ret) = .void then r = none
      else ∃ v val, r = some v ∧ b'.function.value? v = some val ∧ IsResult val.kind := by
  refine Sat.bind ((demand_confined _ _).sat b) fun _ b₁ k => Sat.get_bind ?_
  dsimp only
  rw [returns_confined k]
  unfold callAt
  split
  · exact Sat.bind ((emitVoid_confined _).sat b₁) fun _ _ _ => Sat.pure rfl
  · refine Sat.map (((emit_ofKind ..).sat b₁ (k.valid hv)).imp ?_)
    rintro v b' ⟨val, hval, hk⟩
    exact ⟨v, val, rfl, hval, hk⟩

theorem emitCall_concords (sig : Signature) (name : String) (args args' : List ValueId) :
    Lower.Concords scope b₀ c₀ P Same (emitCall sig name args) (emitCall sig name args') := by
  refine .bind (V := Accord ZeroAlike) (.emit (call_confined ..) (call_confined ..) fun b c h _ => ?_) ?_
  · have hl := call_ofKind sig.func args name h.left.valid
    have hr := call_ofKind sig.func args' name h.right.valid
    unfold Sat at hl hr
    rw [h.returns] at hl
    split at hl
    · rename_i hvoid
      rw [if_pos hvoid] at hr
      rw [hl, hr]
      trivial
    · rename_i hvoid
      rw [if_neg hvoid] at hr
      obtain ⟨v, x, hv, hx, i, hi⟩ := hl
      obtain ⟨w, y, hw, hy, j, hj⟩ := hr
      rw [hv, hw]
      exact ⟨x, y, hx, hy, by simp [hi, hj]⟩
  · rintro (_ | v) (_ | w)
    · exact unit_concords
    · exact .of_pre (fun _ _ h => h) False.elim
    · exact .of_pre (fun _ _ h => h) False.elim
    · exact .pure fun _ _ h => ⟨rfl, fun _ => h⟩

theorem abandonCall_concords (d : Option Diag) {args : List Operand} (hargs : ∀ o ∈ args, o.Uniform) :
    Attempt.Concords scope b₀ c₀ anyBuilders Same (abandonCall d args) (abandonCall d args) := by
  unfold abandonCall
  cases d with
  | none => exact .lift_bind (visitAll_concords hargs) fun _ _ => .fail
  | some d =>
    exact .lift_bind (.report d d) fun _ _ => .lift_bind (visitAll_concords hargs) fun _ _ => .fail

theorem lowerCallTo_concords (sig : Signature) (what name symbol : String) (first first' : List ValueId)
    {args : List Operand} (hargs : ∀ o ∈ args, o.Uniform) (span : Span) :
    Attempt.Concords scope b₀ c₀ anyBuilders Same (lowerCallTo sig what name symbol first args span)
      (lowerCallTo sig what name symbol first' args span) := by
  unfold lowerCallTo
  split
  · exact abandonCall_concords _ hargs
  · have hzip : ∀ a ∈ args.zip sig.params, a.1.Uniform := fun a ha => hargs a.1 (List.of_mem_zip ha).1
    refine .lift_bind (lowerArgs_concords name 1 hzip) fun vs ws => ?_
    refine .bind (V := anyResults) (.of fun _ _ h => h) fun vs ws => ?_
    exact .lift (emitCall_concords sig symbol _ _)

theorem lowerCall_concords (env : Env) (callee : String) {args : List Operand} (hargs : ∀ o ∈ args, o.Uniform)
    (span : Span) :
    Attempt.Concords scope b₀ c₀ anyBuilders Same (lowerCall env callee args span)
      (lowerCall env callee args span) := by
  unfold lowerCall
  split
  · exact lowerCallTo_concords _ _ _ _ _ _ hargs span
  · split <;> exact abandonCall_concords _ hargs

theorem lowerUserMethod_concords (env : Env) (recv recv' : ValueId) (t : Ty) (method : String)
    {args : List Operand} (hargs : ∀ o ∈ args, o.Uniform) (span : Span) :
    Attempt.Concords scope b₀ c₀ anyBuilders Same (lowerUserMethod env ⟨recv, t⟩ method args span)
      (lowerUserMethod env ⟨recv', t⟩ method args span) := by
  unfold lowerUserMethod
  dsimp only
  split
  · exact abandonCall_concords _ hargs
  · split
    · exact abandonCall_concords _ hargs
    · exact lowerCallTo_concords _ _ _ _ _ _ hargs span

/-! ### Vectors -/

theorem vectorShape_concords (env : Env) (elem : Ty) :
    Lower.Concords scope b₀ c₀ P (fun v _ w _ => v.allocator = env.allocator ∧ w.allocator = env.allocator)
      (vectorShape env elem) (vectorShape env elem) :=
  ⟨fun hst _ => ⟨hst, rfl, rfl⟩⟩

theorem lowerIndex_concords {o : Operand} (ho : o.Uniform) :
    Attempt.Concords scope b₀ c₀ anyBuilders anyResults (lowerIndex o) (lowerIndex o) := by
  refine (ho.lower _).typed_bind fun a d t => ?_
  dsimp only
  split
  · exact .get_bind fun _ _ _ _ => .lift (.emit (intResize_confined ..) (intResize_confined ..) fun _ _ _ _ => trivial)
  · exact .reject _ _

theorem lowerElement_concords {o : Operand} (ho : o.Uniform) (elem : Ty) (context : String) :
    Attempt.Concords scope b₀ c₀ anyBuilders anyResults (lowerElement o elem context)
      (lowerElement o elem context) :=
  (lowerAs_concords ho elem context).bind fun _ _ => .pure fun _ _ _ => trivial

theorem lowerIndexAndElement_concords {i o : Operand} (hi : i.Uniform) (ho : o.Uniform) (elem : Ty)
    (context : String) :
    Attempt.Concords scope b₀ c₀ anyBuilders anyResults (lowerIndexAndElement i o elem context)
      (lowerIndexAndElement i o elem context) := by
  refine .lift_bind (lowerIndex_concords hi).run fun x x' => .of_pre (fun _ _ h => h.isSome_eq) fun hx => ?_
  refine .lift_bind ((lowerElement_concords ho elem context).run.imp (fun _ _ _ => trivial) fun _ _ _ _ => id)
    fun y y' => .of_pre (fun _ _ h => h.isSome_eq) fun hy => ?_
  refine .bind (V := anyResults) (.of fun _ _ _ => .of_isSome_eq hx) fun _ _ => ?_
  refine .bind (V := anyResults) (.of fun _ _ _ => .of_isSome_eq hy) fun _ _ => ?_
  exact .pure fun _ _ _ => trivial

/-- Code for its effect, and then the value of `()`. -/
theorem effect_concords {x y : Emit Unit} (hx : IsConfined x) (hy : IsConfined y) :
    Attempt.Concords scope b₀ c₀ P Same
      (do
        Lower.emit x
        Lower.unit)
      (do
        Lower.emit y
        Lower.unit) :=
  step hx hy fun _ _ => .lift unit_concords

theorem lowerVectorOp_concords {env : Env} (ha : env.allocator.IsConfined) (op : VectorOp)
    (desc desc' : ValueId) (elem : Ty) {args : List Operand} (hargs : ∀ o ∈ args, o.Uniform)
    (hlen : args.length = op.arity) :
    Attempt.Concords scope b₀ c₀ anyBuilders Same (lowerVectorOp env op desc elem args)
      (lowerVectorOp env op desc' elem args) := by
  refine .lift_bind (vectorShape_concords env elem) fun v w => .of_pre (fun _ _ h => h) fun ⟨hv, hw⟩ => ?_
  have hva : v.allocator.IsConfined := hv ▸ ha
  have hwa : w.allocator.IsConfined := hw ▸ ha
  cases op with
  | size =>
    exact .result (VectorShape.loadField_confined ..) (VectorShape.loadField_confined ..)
      (VectorShape.loadField_ofKind ..) (VectorShape.loadField_ofKind ..) _
  | capacity =>
    exact .result (VectorShape.loadField_confined ..) (VectorShape.loadField_confined ..)
      (VectorShape.loadField_ofKind ..) (VectorShape.loadField_ofKind ..) _
  | get =>
    obtain ⟨i, rfl⟩ := List.length_eq_one_iff.1 hlen
    refine .bind ((lowerIndex_concords (hargs i (by simp))).imp (fun _ _ _ => trivial) fun _ _ _ _ => id)
      fun _ _ => ?_
    exact .result (VectorShape.getAt_confined ..) (VectorShape.getAt_confined ..)
      (VectorShape.getAt_ofKind ..) (VectorShape.getAt_ofKind ..) _
  | remove =>
    obtain ⟨i, rfl⟩ := List.length_eq_one_iff.1 hlen
    refine .bind ((lowerIndex_concords (hargs i (by simp))).imp (fun _ _ _ => trivial) fun _ _ _ _ => id)
      fun _ _ => ?_
    exact .result (VectorShape.removeAt_confined ..) (VectorShape.removeAt_confined ..)
      (VectorShape.removeAt_ofKind ..) (VectorShape.removeAt_ofKind ..) _
  | add =>
    obtain ⟨o, rfl⟩ := List.length_eq_one_iff.1 hlen
    refine .bind ((lowerElement_concords (hargs o (by simp)) elem _).imp (fun _ _ _ => trivial)
      fun _ _ _ _ => id) fun _ _ => ?_
    exact effect_concords (VectorShape.append_confined hva ..) (VectorShape.append_confined hwa ..)
  | set =>
    obtain ⟨i, o, rfl⟩ := List.length_eq_two.1 hlen
    refine .bind ((lowerIndexAndElement_concords (hargs i (by simp)) (hargs o (by simp)) elem _).imp
      (fun _ _ _ => trivial) fun _ _ _ _ => id) fun _ _ => ?_
    exact effect_concords (VectorShape.setAt_confined ..) (VectorShape.setAt_confined ..)
  | insert =>
    obtain ⟨i, o, rfl⟩ := List.length_eq_two.1 hlen
    refine .bind ((lowerIndexAndElement_concords (hargs i (by simp)) (hargs o (by simp)) elem _).imp
      (fun _ _ _ => trivial) fun _ _ _ _ => id) fun _ _ => ?_
    exact effect_concords (VectorShape.insertAt_confined hva ..) (VectorShape.insertAt_confined hwa ..)

/-- Reports a problem, lowers what is left for its diagnostics, and fails. -/
theorem abandon_concords {x : Lower Unit} (hx : Lower.Concords scope b₀ c₀ anyBuilders anyResults x x) (d : Diag) :
    Attempt.Concords scope b₀ c₀ anyBuilders Same
      (do
        Lower.report d
        x
        Attempt.fail)
      (do
        Lower.report d
        x
        Attempt.fail) :=
  .lift_bind (.report d d) fun _ _ => .lift_bind hx fun _ _ => .fail

theorem lowerVectorMethod_concords {env : Env} (ha : env.allocator.IsConfined) (recv recv' : ValueId)
    (t elem : Ty) (method : String) {args : List Operand} (hargs : ∀ o ∈ args, o.Uniform) (span : Span) :
    Attempt.Concords scope b₀ c₀ anyBuilders Same (lowerVectorMethod env ⟨recv, t⟩ elem method args span)
      (lowerVectorMethod env ⟨recv', t⟩ elem method args span) := by
  unfold lowerVectorMethod
  split
  · exact abandon_concords (visitAll_concords hargs) _
  · split
    · exact abandon_concords (visitAll_concords hargs) _
    · rename_i hlen
      exact lowerVectorOp_concords ha _ _ _ elem hargs (by simpa using hlen)

theorem lowerMethodCall_concords {env : Env} (ha : env.allocator.IsConfined) {r : Operand} (hr : r.Uniform)
    (method : String) {args : List Operand} (hargs : ∀ o ∈ args, o.Uniform) (span : Span) :
    Attempt.Concords scope b₀ c₀ anyBuilders Same (lowerMethodCall env r method args span)
      (lowerMethodCall env r method args span) := by
  refine .run_bind (hr.lower none) (abandonCall_concords none hargs) fun v w =>
    .of_pre (fun _ _ h => h.ty) fun ht => ?_
  obtain ⟨a, t⟩ := v
  obtain ⟨d, u⟩ := w
  obtain rfl : t = u := ht
  cases t with
  | vector elem =>
    exact (lowerVectorMethod_concords ha a d _ elem method hargs span).imp (fun _ _ _ => trivial)
      fun _ _ _ _ => id
  | _ =>
    exact (lowerUserMethod_concords env a d _ method hargs span).imp (fun _ _ _ => trivial) fun _ _ _ _ => id

theorem lowerIndexing_concords (env : Env) {r i : Operand} (hr : r.Uniform) (hi : i.Uniform) (span : Span) :
    Attempt.Concords scope b₀ c₀ anyBuilders Same (lowerIndexing env r i span)
      (lowerIndexing env r i span) := by
  refine .run_bind (hr.lower none) (.lift_bind (visit_concords hi) fun _ _ => .fail) fun v w =>
    .of_pre (fun _ _ h => h.ty) fun ht => ?_
  obtain ⟨a, t⟩ := v
  obtain ⟨d, u⟩ := w
  obtain rfl : t = u := ht
  refine .imp (P := anyBuilders) (V := Same) ?_ (fun _ _ _ => trivial) fun _ _ _ _ => id
  dsimp only
  split
  · exact abandon_concords (visit_concords hi) _
  · refine (lowerIndex_concords hi).bind fun _ _ => ?_
    refine .lift_bind (vectorShape_concords env _) fun _ _ => ?_
    exact .result (VectorShape.getAt_confined ..) (VectorShape.getAt_confined ..)
      (VectorShape.getAt_ofKind ..) (VectorShape.getAt_ofKind ..) _

theorem lowerVectorNew_concords {env : Env} (ha : env.allocator.IsConfined) (t : TypeExpr) (span : Span) :
    Attempt.Concords scope b₀ c₀ P Same (lowerVectorNew env t span) (lowerVectorNew env t span) := by
  refine (resolve_concords env t span).bind fun elem elem' => .of_pre (fun _ _ h => h) ?_
  rintro rfl
  refine .lift_bind (vectorShape_concords env elem) fun v w => .of_pre (fun _ _ h => h) fun ⟨hv, hw⟩ => ?_
  refine .get_bind fun _ _ _ _ => ?_
  exact .plain_value (VectorShape.new_confined (hv ▸ ha) ..) (VectorShape.new_confined (hw ▸ ha) ..) rfl

/-! ### Records -/

theorem fieldAddress_concords (env : Env) {r : Operand} (hr : r.Uniform) (name : String) (span : Span) :
    Attempt.Concords scope b₀ c₀ anyBuilders (fun p _ q _ => p.2 = q.2) (fieldAddress env r name span)
      (fieldAddress env r name span) := by
  refine (hr.lower none).typed_bind fun a d t => ?_
  dsimp only
  split
  · exact .reject _ _
  · exact step (fieldPtr_confined ..) (fieldPtr_confined ..) fun _ _ => .pure fun _ _ _ => rfl

theorem lowerField_concords (env : Env) {r : Operand} (hr : r.Uniform) (name : String) (span : Span) :
    Attempt.Concords scope b₀ c₀ anyBuilders Same (lowerField env r name span) (lowerField env r name span) := by
  refine (fieldAddress_concords env hr name span).bind ?_
  rintro ⟨a, t⟩ ⟨d, u⟩
  refine .of_pre (p := t = u) (fun _ _ h => h) ?_
  rintro rfl
  exact .result (load_confined ..) (load_confined ..) (load_ofKind ..) (load_ofKind ..) _

/-- The same fields are met, and all is well on both sides or on neither. -/
structure Initialised.Alike (acc acc' : Initialised) : Prop where
  seen : acc.seen = acc'.seen
  ok : acc.ok = acc'.ok

theorem lowerInit_concords (info : RecordInfo) (record : String) {acc acc' : Initialised} (h : acc.Alike acc')
    (name : String) {o : Operand} (ho : o.Uniform) :
    Lower.Concords scope b₀ c₀ anyBuilders (fun a _ d _ => a.Alike d) (lowerInit info record acc name o)
      (lowerInit info record acc' name o) := by
  unfold lowerInit
  rw [h.seen]
  split
  · exact .bind (.report _ _) fun _ _ => .bind (visit_concords ho) fun _ _ => .pure fun _ _ _ => ⟨rfl, rfl⟩
  · split
    · exact .bind (.report _ _) fun _ _ => .pure fun _ _ _ => ⟨rfl, rfl⟩
    · refine .bind (lowerAs_concords ho _ _).run ?_
      rintro (_ | v) (_ | w)
      · exact .pure fun _ _ _ => ⟨rfl, rfl⟩
      · exact .of_pre (fun _ _ hv => hv) False.elim
      · exact .of_pre (fun _ _ hv => hv) False.elim
      · exact .pure fun _ _ _ => ⟨rfl, h.ok⟩

theorem lowerInits_concords (info : RecordInfo) (record : String) {acc acc' : Initialised} (h : acc.Alike acc')
    {inits : List (String × Operand)} (hi : ∀ i ∈ inits, i.2.Uniform) :
    Lower.Concords scope b₀ c₀ anyBuilders (fun a _ d _ => a.Alike d) (lowerInits info record acc inits)
      (lowerInits info record acc' inits) := by
  induction inits generalizing acc acc' with
  | nil => exact .pure fun _ _ _ => h
  | cons i rest ih =>
    obtain ⟨name, o⟩ := i
    refine .bind (lowerInit_concords info record h name (hi (name, o) (by simp))) fun a d =>
      .of_pre (fun _ _ hd => hd) fun hd => ?_
    exact (ih hd fun i hmem => hi i (by simp [hmem])).imp (fun _ _ _ => trivial) fun _ _ _ _ => id

theorem reportMissing_concords (record : String) (span : Span) (seen : List Nat) (fields : List (String × Nat)) :
    Lower.Concords scope b₀ c₀ anyBuilders anyResults (reportMissing record span seen fields)
      (reportMissing record span seen fields) := by
  induction fields with
  | nil => exact .pure fun _ _ _ => trivial
  | cons f rest ih =>
    obtain ⟨name, position⟩ := f
    unfold reportMissing
    split
    · exact .bind (.report _ _) fun _ _ => ih
    · exact ih

theorem lowerRecord_concords {env : Env} (ha : env.allocator.IsConfined) (record : String)
    {inits : List (String × Operand)} (hi : ∀ i ∈ inits, i.2.Uniform) (span : Span) :
    Attempt.Concords scope b₀ c₀ anyBuilders Same (lowerRecord env record inits span)
      (lowerRecord env record inits span) := by
  unfold lowerRecord
  split
  · exact .reject _ _
  · rename_i info _
    have hstart : Initialised.Alike {} {} := ⟨rfl, rfl⟩
    refine .lift_bind (lowerInits_concords info record hstart hi) fun acc acc' => .of_pre (fun _ _ h => h) fun h => ?_
    obtain ⟨seen, values, ok⟩ := acc
    obtain ⟨seen', values', ok'⟩ := acc'
    obtain ⟨rfl, rfl⟩ : seen = seen' ∧ ok = ok' := ⟨h.seen, h.ok⟩
    dsimp only
    refine .lift_bind ((reportMissing_concords record span seen _).imp (fun _ _ _ => trivial) fun _ _ _ _ => id)
      fun _ _ => ?_
    split
    · exact .fail
    · refine .get_bind fun _ _ _ _ => step (constUsize_confined _) (constUsize_confined _) fun _ _ => ?_
      refine step (ha ..) (ha ..) fun object object' => ?_
      refine step (storeFields_confined ..) (storeFields_confined ..) fun _ _ => .pure fun _ _ _ => ⟨rfl, ?_⟩
      intro hc
      cases hc

/-! ### Expressions -/

mutual

/-- Every expression has one outcome in all states of one scope. -/
theorem operand_uniform {env : Env} (ha : env.allocator.IsConfined) :
    (e : Expr) → Operand.Uniform ⟨e, lowerExpr env e⟩
  | .int s v => ⟨fun expected => lowerLiteral_concords env (.int s v) (.int v.toNat) expected⟩
  | .float s bits => ⟨fun expected => lowerLiteral_concords env (.float s bits) .float expected⟩
  | .bool _ v => ⟨fun _ => .plain_value (constBool_confined v) (constBool_confined v) rfl⟩
  | .char _ c => ⟨fun _ => .value (constInt_confined ..) (constInt_confined ..) _
      fun _ _ h _ _ => zeroAlike_pushValue h ..⟩
  | .str _ text => ⟨fun _ => .plain_value (globalString_confined text) (globalString_confined text) rfl⟩
  | .unit _ => ⟨fun _ => .lift unit_concords⟩
  | .null _ => ⟨fun _ => .plain_value constNull_confined constNull_confined rfl⟩
  | .ident s name => ⟨fun _ => lowerIdent_concords env name s⟩
  | .unary s op e => ⟨fun {scope b₀ c₀} expected => by
    dsimp only
    rw [lowerExpr]
    split
    · exact lowerLiteral_concords ..
    · exact lowerUnary_concords op (operand_uniform ha e) s expected⟩
  | .binary s op l r => ⟨fun {scope b₀ c₀} expected => by
    dsimp only
    rw [lowerExpr]
    split
    · exact lowerLiteral_concords ..
    · exact lowerBinary_concords env op (operand_uniform ha l) (operand_uniform ha r) s⟩
  | .cast s e t => ⟨fun _ => lowerCast_concords env (operand_uniform ha e) t s⟩
  | .call s callee args => ⟨fun _ => lowerCall_concords env callee (operands_uniform ha args) s⟩
  | .methodCall s r method args => ⟨fun _ =>
      lowerMethodCall_concords ha (operand_uniform ha r) method (operands_uniform ha args) s⟩
  | .field s r name => ⟨fun _ => lowerField_concords env (operand_uniform ha r) name s⟩
  | .index s r i => ⟨fun _ => lowerIndexing_concords env (operand_uniform ha r) (operand_uniform ha i) s⟩
  | .record s name inits => ⟨fun _ => lowerRecord_concords ha name (initOperands_uniform ha inits) s⟩
  | .vectorNew s t => ⟨fun _ => lowerVectorNew_concords ha t s⟩
termination_by structural e => e

theorem operands_uniform {env : Env} (ha : env.allocator.IsConfined) :
    (es : List Expr) → ∀ o ∈ operands env es, o.Uniform
  | [] => by simp [operands]
  | e :: rest => by
    simp only [operands, List.mem_cons, forall_eq_or_imp]
    exact ⟨operand_uniform ha e, operands_uniform ha rest⟩
termination_by structural es => es

theorem initOperands_uniform {env : Env} (ha : env.allocator.IsConfined) :
    (es : List (String × Expr)) → ∀ i ∈ initOperands env es, i.2.Uniform
  | [] => by simp [initOperands]
  | (name, e) :: rest => by
    simp only [initOperands, List.mem_cons, forall_eq_or_imp]
    exact ⟨operand_uniform ha e, initOperands_uniform ha rest⟩
termination_by structural es => es

end

end BlockForge.Lowering
