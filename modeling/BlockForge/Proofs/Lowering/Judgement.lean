import BlockForge.Proofs.Lowering.Rules
import BlockForge.Proofs.Lowering.Shape
import BlockForge.Proofs.Lowering.Submission

/-!
# No expression is dropped silently

Every lowering of an expression follows the rules and submits nothing, or fails and has submitted an
error, unless the expression mentions something whose declaration failed. This holds for operands of any
types: all it takes is an open block to emit into.
-/

namespace BlockForge.Lowering

open Diagnostic (Diag)
open Ir (BlockId Builder Emit ValueId)
open Ir.Emit
open Source (BinaryOp Expr Mention Span TypeExpr UnaryOp)
open Attempt (Judged Verdict)
open BlockForge.Types (CastKind LitKind Ty)

/-! ### Operands -/

theorem operands_expr (env : Env) (es : List Expr) : (operands env es).map (·.expr) = es := by
  induction es with
  | nil => rfl
  | cons e rest ih => rw [operands, List.map_cons, ih]

theorem initOperands_expr (env : Env) (es : List (String × Expr)) :
    (initOperands env es).map (fun i => (i.1, i.2.expr)) = es := by
  induction es with
  | nil => rfl
  | cons e rest ih =>
    obtain ⟨name, e⟩ := e
    rw [initOperands, List.map_cons, ih]

/-- The fixed part of a lowering that needs no types. -/
structure Env.Shaped (env : Env) : Prop where
  allocator : env.allocator.IsInline
  methods : ∀ {t name symbol}, env.tables.method? t name = some symbol →
    (env.tables.function? symbol).isSome = true

theorem Blamed.mono {env : Env} {scope : Scope} {e e' : Expr} (h : e.mentions ⊆ e'.mentions)
    (hb : Blamed env scope e) : Blamed env scope e' := by
  obtain ⟨m, hm, hp⟩ := hb
  exact ⟨m, h hm, hp⟩

/-- An operand that is lowered by the rules or fails for a reason. -/
structure Operand.Sound (env : Env) (o : Operand) : Prop where
  judged : ∀ {scope : Scope} {b : Builder} (expected : Option Ty), b.Opened →
    (o.lower expected).Judged scope b (Blamed env scope o.expr)
      fun v b' => Lowers env scope o.expr expected b v b'

section

variable {env : Env} {scope : Scope} {b : Builder} {B : Prop}

theorem resolve_judged (h : b.Opened) (t : TypeExpr) (span : Span) :
    (Attempt.resolve env t span).Judged scope b B fun ty b' =>
      b' = b ∧ env.tables.resolve t = .ok ty := by
  unfold Attempt.resolve
  split
  · rename_i ht
    exact .pure h ⟨rfl, ht⟩
  · exact Attempt.judged_reject h rfl

theorem coerce_judged (h : b.Opened) (v : Typed) (target : Ty) (span : Span) (context : String) :
    (Attempt.coerce v target span context).Judged scope b B fun w b' =>
      b' = b ∧ w = ⟨v.value, target⟩ ∧ Types.assignable v.ty target = true := by
  unfold Attempt.coerce
  split
  · rename_i ht
    exact .pure h ⟨rfl, rfl, ht⟩
  · exact Attempt.judged_reject h rfl

theorem lowerAs_judged (h : b.Opened) {o : Operand} (ho : o.Sound env) (target : Ty)
    (context : String) :
    (o.lowerAs target context).Judged scope b (Blamed env scope o.expr) fun w b' =>
      ∃ v, Lowers env scope o.expr (some target) b v b' ∧ w = ⟨v.value, target⟩ ∧
        Types.assignable v.ty target = true := by
  refine Judged.bind (ho.judged (some target) h) fun v b₁ a₁ hv => ?_
  refine (coerce_judged a₁.opened v target o.span context).imp id ?_
  rintro w b₂ - ⟨rfl, hw⟩
  exact ⟨v, hv, hw⟩

theorem visit_works (h : b.Opened) {o : Operand} (ho : o.Sound env) :
    o.visit.Works scope b fun _ _ _ => True :=
  Lower.Works.bind (ho.judged none h).run fun _ _ _ a _ => Lower.Works.pure a.opened trivial

theorem visitAll_works (h : b.Opened) {os : List Operand} (hos : ∀ o ∈ os, o.Sound env) :
    (visitAll os).Works scope b fun _ _ _ => True := by
  induction os generalizing b with
  | nil => exact .pure h trivial
  | cons o rest ih =>
    refine Lower.Works.bind (visit_works h (hos o (by simp))) fun _ b₁ _ a₁ _ => ?_
    exact (ih a₁.opened fun o ho => hos o (by simp [ho])).imp fun _ _ _ _ _ => trivial

/-! ### Literals and variables -/

theorem isPlain_problem (e : FoldError) (type : String) : isPlain (e.problem type) = true := by
  obtain ⟨cause, span, leaf⟩ := e
  cases cause <;> rfl

theorem emitConst_inline (t : Ty) (c : Const) : IsInline (emitConst env t c) := by
  cases c with
  | int v => exact constInt_inline ..
  | float bits => exact constFloat_inline ..

theorem lowerLiteral_judged (h : b.Opened) {e : Expr} {kind : LitKind} (hk : literalKind e = some kind)
    (expected : Option Ty) :
    (lowerLiteral env e kind expected).Judged scope b B fun v b' =>
      Lowers env scope e expected b v b' := by
  unfold lowerLiteral
  dsimp only
  split
  · rename_i c hc
    refine Attempt.judged_emit h (emitConst_inline _ c).isAdvance fun a b₁ a₁ ha => ?_
    exact .pure a₁.opened (.literal hk hc ha)
  · exact Attempt.judged_reject h (isPlain_problem ..)

theorem unit_works (h : b.Opened) : Lower.unit.Works scope b fun v b' log =>
    log = [] ∧ ∃ a, v = ⟨a, .unit⟩ ∧ Emit.constInt .i8 0 b = (a, b') := by
  refine Lower.Works.bind (Lower.works_emit h (constInt_inline ..).isAdvance) fun a b₁ log a₁ ha => ?_
  obtain ⟨rfl, ha⟩ := ha
  exact .pure a₁.opened ⟨rfl, a, rfl, ha⟩

/-- The value of something that was done for its effect. -/
theorem unit_judged (h : b.Opened) {P : Typed → Builder → Prop}
    (k : ∀ a b', Emit.constInt .i8 0 b = (a, b') → P ⟨a, .unit⟩ b') :
    (liftM Lower.unit : Attempt Typed).Judged scope b B P := by
  refine Attempt.lift_judged ((unit_works h).imp ?_)
  rintro _ b' _ a₁ ⟨rfl, a, rfl, ha⟩
  exact ⟨rfl, k a b' ha⟩

theorem lowerIdent_judged (h : b.Opened) (name : String) (span : Span) (expected : Option Ty) :
    (lowerIdent env name span).Judged scope b (Blamed env scope (.ident span name)) fun v b' =>
      Lowers env scope (.ident span name) expected b v b' := by
  refine Attempt.judged_get (fun _ => rfl) ?_
  dsimp only [State.plain]
  split
  · rename_i slot t hs
    refine Attempt.judged_emit h (load_inline ..).isAdvance fun a b₁ a₁ ha => ?_
    exact .pure a₁.opened (.ident hs ha)
  · rename_i hs
    exact Attempt.judged_fail h ⟨.name name, by simp [Expr.mentions], hs⟩
  · exact Attempt.judged_reject h rfl

/-! ### Operators -/

theorem lowerUnary_judged (h : b.Opened) (op : UnaryOp) {o : Operand} (ho : o.Sound env) (span : Span)
    (expected : Option Ty) (hn : literalKind (.unary span op o.expr) = none) :
    (lowerUnary op o span expected).Judged scope b (Blamed env scope (.unary span op o.expr))
      fun v b' => Lowers env scope (.unary span op o.expr) expected b v b' := by
  have hb : Blamed env scope o.expr → Blamed env scope (.unary span op o.expr) :=
    .mono (by simp [Expr.mentions])
  unfold lowerUnary
  dsimp only
  refine Judged.bind ((ho.judged _ h).imp hb fun _ _ _ hv => hv) fun v b₁ a₁ hv => ?_
  have h₁ := a₁.opened
  cases op with
  | plus =>
    dsimp only
    split
    · rename_i ht
      exact .pure h₁ (.plus hn hv ht)
    · exact Attempt.judged_reject h₁ rfl
  | neg =>
    dsimp only
    split
    · rename_i ht
      refine Attempt.judged_emit h₁ (fneg_inline ..).isAdvance fun a b₂ a₂ ha => ?_
      exact .pure a₂.opened (.fneg hn hv ht ha)
    · split
      · rename_i ht
        refine Attempt.judged_emit h₁ (neg_inline ..).isAdvance fun a b₂ a₂ ha => ?_
        exact .pure a₂.opened (.neg hn hv ht ha)
      · exact Attempt.judged_reject h₁ rfl
  | not =>
    dsimp only
    split
    · rename_i ht
      refine Attempt.judged_emit h₁ (not_inline ..).isAdvance fun a b₂ a₂ ha => ?_
      exact .pure a₂.opened (.not hv ht ha)
    · exact Attempt.judged_reject h₁ rfl
  | bitNot =>
    dsimp only
    split
    · rename_i ht
      refine Attempt.judged_emit h₁ (not_inline ..).isAdvance fun a b₂ a₂ ha => ?_
      exact .pure a₂.opened (.bitNot hv ht ha)
    · exact Attempt.judged_reject h₁ rfl

theorem lowerCast_judged (h : b.Opened) {o : Operand} (ho : o.Sound env) (t : TypeExpr) (span : Span)
    (expected : Option Ty) :
    (lowerCast env o t span).Judged scope b (Blamed env scope (.cast span o.expr t))
      fun v b' => Lowers env scope (.cast span o.expr t) expected b v b' := by
  have hb : Blamed env scope o.expr → Blamed env scope (.cast span o.expr t) :=
    .mono (by simp [Expr.mentions])
  unfold lowerCast
  refine Judged.bind (resolve_judged h t span) ?_
  rintro target b₁ a₁ ⟨rfl, ht⟩
  refine Judged.bind ((ho.judged _ h).imp hb fun _ _ _ hv => hv) fun v b₂ a₂ hv => ?_
  split
  · exact Attempt.judged_reject a₂.opened rfl
  · rename_i kind hk
    refine Attempt.judged_emit a₂.opened (emitCast_inline ..).isAdvance fun a b₃ a₃ ha => ?_
    exact .pure a₃.opened (.cast ht hv hk ha)

/-! ### Binary operators -/

/-- Both operands are lowered, whether or not the left one fails. -/
theorem lowerBoth_judged (h : b.Opened) {l r : Operand} (hl : l.Sound env) (hr : r.Sound env)
    (expected : Option Ty) :
    (lowerBoth l r expected).Judged scope b (Blamed env scope l.expr ∨ Blamed env scope r.expr)
      fun p b' => ∃ b₁, Lowers env scope l.expr expected b p.1 b₁ ∧
        Lowers env scope r.expr expected b₁ p.2 b' := by
  refine Attempt.works_bind (hl.judged expected h).run fun x b₁ log₁ a₁ hx => ?_
  refine Attempt.works_bind (hr.judged expected a₁.opened).run fun y b₂ log₂ a₂ hy => ?_
  cases x with
  | none =>
    refine Lower.Works.pure a₂.opened ?_
    exact hx.imp (by simp +contextual) .inl
  | some x =>
    obtain ⟨rfl, hx⟩ := hx
    cases y with
    | none =>
      refine Lower.Works.pure a₂.opened ?_
      exact hy.imp (by simp +contextual) .inr
    | some y =>
      obtain ⟨rfl, hy⟩ := hy
      exact Lower.Works.pure a₂.opened ⟨rfl, b₁, hx, hy⟩

theorem lowerOperands_judged (h : b.Opened) (op : BinaryOp) {l r : Operand} (hl : l.Sound env)
    (hr : r.Sound env) (span : Span) :
    (lowerOperands op l r span).Judged scope b (Blamed env scope (.binary span op l.expr r.expr))
      fun p b' => LowersBoth env scope l.expr r.expr b p.1 p.2 b' := by
  have hbl : Blamed env scope l.expr → Blamed env scope (.binary span op l.expr r.expr) :=
    .mono (by simp [Expr.mentions])
  have hbr : Blamed env scope r.expr → Blamed env scope (.binary span op l.expr r.expr) :=
    .mono (by simp [Expr.mentions])
  unfold lowerOperands
  split
  · rename_i k₁ k₂ hk₁ hk₂
    split
    · rename_i kind hk
      refine (lowerBoth_judged h hl hr _).imp (Or.rec hbl hbr) ?_
      rintro ⟨x, y⟩ b' - ⟨b₁, hx, hy⟩
      exact .literals hk₁ hk₂ hk hx hy
    · exact Attempt.judged_reject h rfl
  · rename_i k hk hn
    refine Judged.bind ((hr.judged none h).imp hbr fun _ _ _ hv => hv) fun y b₁ a₁ hy => ?_
    refine Judged.bind ((hl.judged _ a₁.opened).imp hbl fun _ _ _ hv => hv) fun x b₂ a₂ hx => ?_
    exact .pure a₂.opened (.left hk hn hy hx)
  · rename_i k hn hk
    refine Judged.bind ((hl.judged none h).imp hbl fun _ _ _ hv => hv) fun x b₁ a₁ hx => ?_
    refine Judged.bind ((hr.judged _ a₁.opened).imp hbr fun _ _ _ hv => hv) fun y b₂ a₂ hy => ?_
    exact .pure a₂.opened (.right hn hk hx hy)
  · rename_i hnl hnr
    refine (lowerBoth_judged h hl hr _).imp (Or.rec hbl hbr) ?_
    rintro ⟨x, y⟩ b' - ⟨b₁, hx, hy⟩
    exact .neither hnl hnr hx hy

/-- Arithmetic operators have code. -/
theorem emitArithmetic_isSome {op : BinaryOp} (hop : op.isArithmetic = true) (t : Ty) (ir : Ir.Ty)
    (x y : ValueId) (b : Builder) : ((emitArithmetic op t ir x y b).1).isSome = true := by
  unfold emitArithmetic
  dsimp only
  split
  case h_6 =>
    split
    · rfl
    · split <;> rfl
  case h_7 => cases op <;> simp_all [BinaryOp.isArithmetic]
  all_goals rfl

section

variable {op : BinaryOp} {l r : Expr} {x y : Typed} {b₀ : Builder}
  (ho : LowersBoth env scope l r b₀ x y b)

include ho

theorem lowerArithmetic_judged (h : b.Opened) (hop : op.isArithmetic = true) (span : Span)
    (hn : literalKind (.binary span op l r) = none) (expected : Option Ty) :
    (lowerArithmetic env op x y span).Judged scope b B fun v b' =>
      Lowers env scope (.binary span op l r) expected b₀ v b' := by
  unfold lowerArithmetic
  split
  · exact Attempt.judged_reject h rfl
  · rename_i hnum
    split
    · exact Attempt.judged_reject h rfl
    · rename_i hty
      refine Attempt.judged_get (fun _ => rfl) ?_
      dsimp only [State.plain]
      split
      · exact Attempt.judged_reject h rfl
      · rename_i hz
        refine Attempt.judged_emit h (emitArithmetic_inline ..).isAdvance fun a b₁ a₁ ha => ?_
        cases a with
        | none =>
          have := emitArithmetic_isSome hop x.ty (env.ir x.ty) x.value y.value b
          simp [ha] at this
        | some a =>
          refine .pure a₁.opened (.arithmetic hn hop ho ?_ (by simpa using hty) (by simpa using hz) ha)
          simp only [Bool.or_eq_true, Bool.not_eq_true', not_or] at hnum
          simpa using hnum.1

theorem lowerComparison_judged (h : b.Opened) (hop : op.isComparison = true) (span : Span)
    (expected : Option Ty) :
    (lowerComparison op x y span).Judged scope b B fun v b' =>
      Lowers env scope (.binary span op l r) expected b₀ v b' := by
  unfold lowerComparison
  split
  · rename_i hord
    split
    · exact Attempt.judged_reject h rfl
    · rename_i hty
      split
      · exact Attempt.judged_reject h rfl
      · rename_i hx
        refine Attempt.judged_emit h (emitOrdering_inline ..).isAdvance fun a b₁ a₁ ha => ?_
        exact .pure a₁.opened (.ordering hord ho (by simpa using hty) (by simpa using hx) ha)
  · rename_i hord
    split
    · rename_i hx
      refine Attempt.judged_emit h (emitEquality_inline ..).isAdvance fun a b₁ a₁ ha => ?_
      exact .pure a₁.opened (.equality hop (by simpa using hord) ho hx ha)
    · exact Attempt.judged_reject h rfl

theorem lowerBitwise_judged (h : b.Opened) (hop : op.isBitwise = true) (span : Span)
    (hn : literalKind (.binary span op l r) = none) (expected : Option Ty) :
    (lowerBitwise env op x y span).Judged scope b B fun v b' =>
      Lowers env scope (.binary span op l r) expected b₀ v b' := by
  unfold lowerBitwise
  dsimp only
  split
  · rename_i hs
    split
    · rename_i hx
      rw [Bool.and_eq_true] at hx
      refine Attempt.judged_emit h (emitShift_inline ..).isAdvance fun a b₁ a₁ ha => ?_
      exact .pure a₁.opened (.shift hn hs ho hx.1 hx.2 ha)
    · exact Attempt.judged_reject h rfl
  · rename_i hs
    split
    · rename_i hx
      simp only [Bool.and_eq_true, Bool.or_eq_true, beq_iff_eq] at hx
      refine Attempt.judged_emit h (emitBitwise_inline ..).isAdvance fun a b₁ a₁ ha => ?_
      exact .pure a₁.opened (.bitwise hn hop (by simpa using hs) ho hx.1 hx.2 ha)
    · exact Attempt.judged_reject h rfl

end

theorem lowerBoolOperand_judged (h : b.Opened) (op : BinaryOp) {o : Operand} (ho : o.Sound env) :
    (lowerBoolOperand op o).Judged scope b (Blamed env scope o.expr) fun a b' =>
      ∃ v, Lowers env scope o.expr (some .bool) b v b' ∧ v.ty = .bool ∧ v.value = a := by
  refine Judged.bind (ho.judged _ h) fun v b₁ a₁ hv => ?_
  split
  · rename_i ht
    exact .pure a₁.opened ⟨v, hv, ht, rfl⟩
  · exact Attempt.judged_reject a₁.opened rfl

/-- The right operand is lowered in a block of its own, which then joins the other one. -/
theorem fork_advances (h : b.Opened) {origin : BlockId} (hc : b.current = some origin)
    {isAnd : Bool} {first second : String} {v : ValueId} {rhs merge : BlockId} {b₁ b₂ b₃ b₄ : Builder}
    (h₁ : Emit.appendBlock first b = (rhs, b₁)) (h₂ : Emit.appendBlock second b₁ = (merge, b₂))
    (h₃ : (if isAnd then Emit.condBr v rhs merge else Emit.condBr v merge rhs) b₂ = ((), b₃))
    (h₄ : Emit.positionAt rhs b₃ = ((), b₄)) :
    b₄.Opened ∧ ∀ {b₅ b₆ b₇}, Advances b₄ b₅ → Emit.br merge b₅ = ((), b₆) →
      Emit.positionAt merge b₆ = ((), b₇) → Advances b b₇ := by
  obtain ⟨hrhs, hm₁⟩ := (appendBlock_makes h.valid first).of_eq h₁
  obtain ⟨hmerge, hm₂⟩ := (appendBlock_makes (hm₁.opened h).valid second).of_eq h₂
  have hm := hm₁.trans hm₂
  rw [hm₁.size] at hmerge
  have hturn : ∃ t, Turns b₂ b₃ t origin ∧ ∀ i, i ∈ t.successors ↔ i = rhs ∨ i = merge := by
    have hc₂ := hm.current.trans hc
    cases isAnd with
    | true => exact ⟨_, (condBr_turns (hm.opened h) hc₂ v rhs merge).of_eq h₃,
        by simp [Ir.Terminator.successors]⟩
    | false => exact ⟨_, (condBr_turns (hm.opened h) hc₂ v merge rhs).of_eq h₃,
        by simp [Ir.Terminator.successors, or_comm]⟩
  obtain ⟨t, ht, hsucc⟩ := hturn
  have hpos := (ht.positionAt rhs).of_eq h₄
  refine ⟨Turns.opened h hm hpos (by omega) (by omega), fun {b₅ b₆ b₇} a₅ h₆ h₇ => ?_⟩
  obtain ⟨d, hd, -⟩ := a₅.opened.position
  have hlast := (((terminate_turns a₅.opened hd (.br merge)).of_eq h₆).positionAt merge).of_eq h₇
  exact Advances.branch h hm (.inl ⟨hrhs, hmerge⟩) hpos hsucc a₅ hlast (.inl rfl)

theorem lowerShortCircuit_judged (h : b.Opened) {op : BinaryOp} (hop : op.isLogical = true)
    {l r : Operand} (hl : l.Sound env) (hr : r.Sound env) (span : Span) (expected : Option Ty) :
    (lowerShortCircuit op l r).Judged scope b (Blamed env scope (.binary span op l.expr r.expr))
      fun v b' => Lowers env scope (.binary span op l.expr r.expr) expected b v b' := by
  have hbl : Blamed env scope l.expr → Blamed env scope (.binary span op l.expr r.expr) :=
    .mono (by simp [Expr.mentions])
  have hbr : Blamed env scope r.expr → Blamed env scope (.binary span op l.expr r.expr) :=
    .mono (by simp [Expr.mentions])
  unfold lowerShortCircuit
  dsimp only
  refine Judged.bind ((lowerBoolOperand_judged h op hl).imp hbl fun _ _ _ hv => hv) ?_
  rintro _ b₁ a₁ ⟨x, hx, hxt, rfl⟩
  refine Attempt.judged_get (fun _ => rfl) ?_
  dsimp only [State.plain]
  obtain ⟨origin, hc, -⟩ := a₁.opened.position
  rw [hc]
  refine Attempt.traces_of_some (Attempt.traces_bind (Lower.traces_emit _) ?_)
  rintro rhs b₂ _ ⟨rfl, h₂⟩
  refine Attempt.traces_bind (Lower.traces_emit _) ?_
  rintro merge b₃ _ ⟨rfl, h₃⟩
  refine Attempt.traces_bind (Lower.traces_emit _) ?_
  rintro ⟨⟩ b₄ _ ⟨rfl, h₄⟩
  refine Attempt.traces_bind (Lower.traces_emit _) ?_
  rintro ⟨⟩ b₅ _ ⟨rfl, h₅⟩
  obtain ⟨ho₅, hjoin⟩ := fork_advances a₁.opened hc h₂ h₃ h₄ h₅
  refine Attempt.traces_bind (lowerBoolOperand_judged ho₅ op hr).run ?_
  rintro y b₆ log ⟨a₆, hy⟩
  refine Attempt.traces_get_bind (fun _ => rfl) (Attempt.traces_get_bind (fun _ => rfl) ?_)
  obtain ⟨exit, he, -, hopen⟩ := a₆.opened.position
  have hterm : b₆.currentTerminated = false := by
    simp [Builder.currentTerminated, he, Builder.hasTerminator_eq, hopen]
  simp only [State.plain, he, hterm, Option.getD_some, Bool.not_false, if_true, List.nil_append]
  refine Attempt.traces_bind (Lower.traces_emit _) ?_
  rintro ⟨⟩ b₇ _ ⟨rfl, h₇⟩
  refine Attempt.traces_bind (Lower.traces_emit _) ?_
  rintro ⟨⟩ b₈ _ ⟨rfl, h₈⟩
  have a₈ := hjoin a₆ h₇ h₈
  simp only [List.nil_append]
  cases y with
  | none =>
    refine ⟨none, b₈, [], .pure none, .nil, a₈, ?_⟩
    rw [List.append_nil]
    exact hy.imp id hbr
  | some y =>
    obtain ⟨rfl, y, hy, hyt, rfl⟩ := hy
    have hmerge : Judged (liftM (Lower.emit (constBool !op == BinaryOp.and)) >>= fun short =>
        liftM (Lower.emit (phi .i1 [(short, origin), (y.value, exit)]
          (if (op == .and) = true then "and" else "or"))) >>= fun value =>
        Pure.pure (⟨value, .bool⟩ : Typed)) scope b₈ (Blamed env scope (.binary span op l.expr r.expr))
        fun v b' => Lowers env scope (.binary span op l.expr r.expr) expected b v b' := by
      refine Attempt.judged_emit a₈.opened (constBool_inline _).isAdvance fun short b₉ a₉ h₉ => ?_
      refine Attempt.judged_emit a₉.opened (phi_inline ..).isAdvance fun a b' a' ha => ?_
      exact .pure a'.opened (.shortCircuit hop hx hxt hc h₂ h₃ h₄ h₅ hy hyt he h₇ h₈ h₉ ha)
    exact Attempt.traces_of_some (Lower.Traces.imp hmerge.run fun _ _ _ hv => ⟨a₈.trans hv.1, hv.2⟩)

theorem foldComparison?_judged (h : b.Opened) {op : BinaryOp} (hop : op.isComparison = true)
    {l r : Expr} {folded : Attempt Typed} (hf : foldComparison? env op l r = some folded) (span : Span)
    (expected : Option Ty) :
    folded.Judged scope b B fun v b' => Lowers env scope (.binary span op l r) expected b v b' := by
  unfold foldComparison? at hf
  obtain ⟨k₁, hk₁, hf⟩ := Option.bind_eq_some_iff.1 hf
  obtain ⟨k₂, hk₂, hf⟩ := Option.bind_eq_some_iff.1 hf
  obtain ⟨kind, hkind, hf⟩ := Option.bind_eq_some_iff.1 hf
  dsimp only at hf
  split at hf
  · rename_i x y hx hy
    cases hf
    refine Attempt.judged_emit h (constBool_inline _).isAdvance fun a b₁ a₁ ha => ?_
    exact .pure a₁.opened (.folded hop hk₁ hk₂ hkind hx hy ha)
  all_goals
    cases hf
    exact Attempt.judged_reject h (isPlain_problem ..)

theorem lowerBinary_judged (h : b.Opened) (op : BinaryOp) {l r : Operand} (hl : l.Sound env)
    (hr : r.Sound env) (span : Span) (hn : literalKind (.binary span op l.expr r.expr) = none)
    (expected : Option Ty) :
    (lowerBinary env op l r span).Judged scope b (Blamed env scope (.binary span op l.expr r.expr))
      fun v b' => Lowers env scope (.binary span op l.expr r.expr) expected b v b' := by
  unfold lowerBinary
  split
  · rename_i hop
    exact lowerShortCircuit_judged h hop hl hr span expected
  · rename_i hlog
    split
    · rename_i folded hf
      split at hf
      · rename_i hop
        exact foldComparison?_judged h hop hf span expected
      · cases hf
    · refine Judged.bind (lowerOperands_judged h op hl hr span) fun p b₁ a₁ ho => ?_
      obtain ⟨x, y⟩ := p
      dsimp only
      split
      · rename_i hop
        exact lowerArithmetic_judged ho a₁.opened hop span hn expected
      · rename_i harith
        split
        · rename_i hop
          exact lowerComparison_judged ho a₁.opened hop span expected
        · rename_i hcmp
          have hop : op.isBitwise = true := by
            cases op <;> simp_all [BinaryOp.isArithmetic, BinaryOp.isComparison, BinaryOp.isLogical,
              BinaryOp.isBitwise]
          exact lowerBitwise_judged ho a₁.opened hop span hn expected

/-! ### Calls -/

/-- All arguments are lowered; they have values only if all of them have one. -/
theorem lowerArgs_works (h : b.Opened) (callee : String) (position : Nat) {args : List (Operand × Ty)}
    (hargs : ∀ a ∈ args, a.1.Sound env) :
    (lowerArgs callee position args).Works scope b (Verdict (∃ a ∈ args, Blamed env scope a.1.expr)
      fun vs b' => LowersArgs env scope (args.map fun a => (a.1.expr, a.2)) b vs b') := by
  induction args generalizing b position with
  | nil => exact .pure h ⟨rfl, .nil⟩
  | cons arg rest ih =>
    obtain ⟨o, t⟩ := arg
    have ho : o.Sound env := hargs (o, t) (by simp)
    refine Lower.Works.bind (lowerAs_judged h ho t _).run fun v b₁ log₁ a₁ hv => ?_
    refine Lower.Works.bind (ih a₁.opened (position + 1) fun a ha => hargs a (by simp [ha]))
      fun vs b₂ log₂ a₂ hvs => ?_
    refine Lower.Works.pure a₂.opened ?_
    rw [List.append_nil]
    cases v with
    | none =>
      refine hv.imp ?_ fun hb => ⟨(o, t), by simp, hb⟩
      simp +contextual
    | some v =>
      obtain ⟨rfl, w, hw, rfl, ht⟩ := hv
      cases vs with
      | none =>
        refine hvs.imp (by simp +contextual) ?_
        rintro ⟨a, ha, hb⟩
        exact ⟨a, by simp [ha], hb⟩
      | some vs => exact ⟨by simpa using hvs.1, LowersArgs.cons (v := w) hw ht hvs.2⟩

theorem emitCall_judged (h : b.Opened) (sig : Signature) (name : String) (args : List ValueId) :
    (liftM (emitCall sig name args) : Attempt Typed).Judged scope b B fun v b' =>
      Calls sig name args b v b' := by
  refine Attempt.lift_judged (Lower.Works.bind (Lower.works_emit h (call_inline ..).isAdvance)
    fun a b₁ log a₁ ha => ?_)
  obtain ⟨rfl, ha⟩ := ha
  cases a with
  | some a => exact .pure a₁.opened ⟨rfl, .value ha⟩
  | none =>
    refine (unit_works a₁.opened).imp ?_
    rintro _ b₂ _ - ⟨rfl, u, rfl, hu⟩
    exact ⟨rfl, .nothing ha hu⟩

/-- A call that cannot be made fails with a report, or for the reason that there is already. -/
theorem abandonCall_judged {P : Typed → Builder → Prop} (h : b.Opened) {d : Option Diag}
    (hd : ∀ e, d = some e → isPlain e = true) {args : List Operand} (hargs : ∀ o ∈ args, o.Sound env)
    (hb : d = none → B) : (abandonCall d args).Judged scope b B P := by
  cases d with
  | none =>
    refine Attempt.works_bind (visitAll_works h hargs) fun _ b₁ log a₁ _ => ?_
    exact Lower.Works.pure a₁.opened (.inr (hb rfl))
  | some d =>
    refine Attempt.works_bind (Lower.works_report h (hd d rfl)) ?_
    rintro - b₁ _ a₁ ⟨rfl, -⟩
    refine Attempt.works_bind (visitAll_works a₁.opened hargs) fun _ b₂ log a₂ _ => ?_
    exact Lower.Works.pure a₂.opened (.inl (by simp))

theorem lowerCallTo_judged (h : b.Opened) (sig : Signature) (what name symbol : String)
    (first : List ValueId) {args : List Operand} (hargs : ∀ o ∈ args, o.Sound env) (span : Span)
    (hb : ∀ o ∈ args, Blamed env scope o.expr → B) :
    (lowerCallTo sig what name symbol first args span).Judged scope b B fun v b' =>
      args.length = sig.params.length ∧ ∃ vs b₁,
        LowersArgs env scope ((args.map (·.expr)).zip sig.params) b vs b₁ ∧
          Calls sig symbol (first ++ vs) b₁ v b' := by
  unfold lowerCallTo
  split
  · refine abandonCall_judged h ?_ hargs (by simp)
    rintro e he
    cases he
    rfl
  · rename_i hlen
    have hzip : ∀ a ∈ args.zip sig.params, a.1.Sound env :=
      fun a ha => hargs a.1 (List.of_mem_zip ha).1
    refine Attempt.works_bind (lowerArgs_works h name 1 hzip) fun vs b₁ log a₁ hvs => ?_
    cases vs with
    | none =>
      refine Lower.Works.pure a₁.opened ?_
      rw [List.append_nil]
      refine hvs.imp id ?_
      rintro ⟨a, ha, hbl⟩
      exact hb a.1 (List.of_mem_zip ha).1 hbl
    | some vs =>
      obtain ⟨rfl, hvs⟩ := hvs
      refine (emitCall_judged a₁.opened sig symbol (first ++ vs)).imp id fun v b₂ _ hv => ?_
      refine ⟨by simpa using hlen, vs, b₁, ?_, hv⟩
      rw [List.zip_map_left]
      exact hvs

theorem lowerCall_judged (h : b.Opened) (callee : String) {args : List Operand}
    (hargs : ∀ o ∈ args, o.Sound env) (span : Span) (expected : Option Ty) :
    (lowerCall env callee args span).Judged scope b
      (Blamed env scope (.call span callee (args.map (·.expr)))) fun v b' =>
      Lowers env scope (.call span callee (args.map (·.expr))) expected b v b' := by
  have hb : ∀ o ∈ args, Blamed env scope o.expr →
      Blamed env scope (.call span callee (args.map (·.expr))) := fun o ho =>
    .mono fun m hm => by
      simp only [Expr.mentions, List.mem_cons, Source.mem_mentionsAll]
      exact .inr ⟨o.expr, List.mem_map_of_mem ho, hm⟩
  unfold lowerCall
  split
  · rename_i sig hsig
    obtain ⟨hs, hrecv⟩ := Option.filter_eq_some_iff.1 hsig
    refine (lowerCallTo_judged h sig _ _ _ _ hargs span hb).imp id ?_
    rintro v b' - ⟨hlen, vs, b₁, hvs, hc⟩
    exact .call hs (by simpa using hrecv) (by simpa using hlen) hvs hc
  · split
    · rename_i hp
      refine abandonCall_judged h (by simp) hargs fun _ => ⟨.callee callee, ?_, hp⟩
      simp [Expr.mentions]
    · refine abandonCall_judged h ?_ hargs (by simp)
      rintro e he
      cases he
      rfl

theorem isPlain_unknownMethod (span : Span) (method type : String) :
    isPlain (Problem.unknownMethod span method type) = true := rfl

theorem isPlain_argCount (span : Span) (what name : String) (expected found : Nat) :
    isPlain (Problem.argCount span what name expected found) = true := rfl

/-! ### Vectors -/

theorem vectorShape_works (h : b.Opened) (elem : Ty) : (vectorShape env elem).Works scope b
    fun shape b' log => log = [] ∧ b' = b ∧ shape = env.shapeAt elem b := by
  refine ⟨env.shapeAt elem b, b, [], ?_, .nil, .refl h, rfl, rfl, rfl⟩
  rintro s rfl rfl
  rfl

theorem lowerIndex_judged (h : b.Opened) {o : Operand} (ho : o.Sound env) :
    (lowerIndex o).Judged scope b (Blamed env scope o.expr) fun a b' =>
      LowersIndex env scope o.expr b a b' := by
  refine Judged.bind (ho.judged _ h) fun v b₁ a₁ hv => ?_
  split
  · rename_i ht
    refine Attempt.judged_get (fun _ => rfl) ?_
    dsimp only [State.plain]
    refine Attempt.lift_judged ((Lower.works_emit a₁.opened (intResize_inline ..).isAdvance).imp ?_)
    rintro a b₂ _ - ⟨rfl, ha⟩
    exact ⟨rfl, .intro hv ht ha⟩
  · exact Attempt.judged_reject a₁.opened rfl

theorem lowerElement_judged (h : b.Opened) {o : Operand} (ho : o.Sound env) (elem : Ty)
    (context : String) :
    (lowerElement o elem context).Judged scope b (Blamed env scope o.expr) fun a b' =>
      ∃ v, Lowers env scope o.expr (some elem) b v b' ∧ v.value = a ∧
        Types.assignable v.ty elem = true := by
  refine Judged.bind (lowerAs_judged h ho elem context) ?_
  rintro w b₁ a₁ ⟨v, hv, rfl, ht⟩
  exact .pure a₁.opened ⟨v, hv, rfl, ht⟩

/-- Index and value are both lowered, whether or not the index fails. -/
theorem lowerIndexAndElement_judged (h : b.Opened) {i o : Operand} (hi : i.Sound env)
    (ho : o.Sound env) (elem : Ty) (context : String) :
    (lowerIndexAndElement i o elem context).Judged scope b
      (Blamed env scope i.expr ∨ Blamed env scope o.expr) fun p b' =>
      ∃ b₁ v, LowersIndex env scope i.expr b p.1 b₁ ∧ Lowers env scope o.expr (some elem) b₁ v b' ∧
        v.value = p.2 ∧ Types.assignable v.ty elem = true := by
  refine Attempt.works_bind (lowerIndex_judged h hi).run fun x b₁ log₁ a₁ hx => ?_
  refine Attempt.works_bind (lowerElement_judged a₁.opened ho elem context).run
    fun y b₂ log₂ a₂ hy => ?_
  cases x with
  | none =>
    refine Lower.Works.pure a₂.opened ?_
    exact hx.imp (by simp +contextual) .inl
  | some x =>
    obtain ⟨rfl, hx⟩ := hx
    cases y with
    | none =>
      refine Lower.Works.pure a₂.opened ?_
      exact hy.imp (by simp +contextual) .inr
    | some y =>
      obtain ⟨rfl, v, hv⟩ := hy
      exact Lower.Works.pure a₂.opened ⟨rfl, b₁, v, hx, hv⟩

/-- Code for its effect, and then the value of `()`. -/
theorem effect_judged (h : b.Opened) {e : Emit Unit} (he : IsAdvance e) {P : Typed → Builder → Prop}
    (k : ∀ b₁ a b', e b = ((), b₁) → Emit.constInt .i8 0 b₁ = (a, b') → P ⟨a, .unit⟩ b') :
    (do
      Lower.emit e
      Lower.unit : Attempt Typed).Judged scope b B P :=
  Attempt.judged_emit h he fun _ b₁ a₁ h₁ => unit_judged a₁.opened fun a b' => k b₁ a b' h₁

/-- Code for a value of a type. -/
theorem value_judged (h : b.Opened) {e : Emit ValueId} (he : IsAdvance e) {t : Ty}
    {P : Typed → Builder → Prop} (k : ∀ a b', e b = (a, b') → P ⟨a, t⟩ b') :
    (do
      let value ← Lower.emit e
      pure ⟨value, t⟩ : Attempt Typed).Judged scope b B P :=
  Attempt.judged_emit h he fun a b₁ a₁ h₁ => .pure a₁.opened (k a b₁ h₁)

theorem lowerVectorOp_judged (henv : env.Shaped) (h : b.Opened) {op : VectorOp} (desc : ValueId)
    (elem : Ty) {args : List Operand} (hargs : ∀ o ∈ args, o.Sound env) (hlen : args.length = op.arity)
    (hb : ∀ o ∈ args, Blamed env scope o.expr → B) :
    (lowerVectorOp env op desc elem args).Judged scope b B fun v b' =>
      LowersVector env scope (env.shapeAt elem b) elem desc op (args.map (·.expr)) b v b' := by
  have ha : (env.shapeAt elem b).allocator.IsInline := henv.allocator
  refine Attempt.works_bind (vectorShape_works h elem) ?_
  rintro _ _ _ - ⟨rfl, rfl, rfl⟩
  cases op with
  | size =>
    obtain rfl := List.length_eq_zero_iff.1 hlen
    exact value_judged h (VectorShape.loadField_inline ..).isAdvance fun a b' => .size
  | capacity =>
    obtain rfl := List.length_eq_zero_iff.1 hlen
    exact value_judged h (VectorShape.loadField_inline ..).isAdvance fun a b' => .capacity
  | get =>
    obtain ⟨i, rfl⟩ := List.length_eq_one_iff.1 hlen
    refine Judged.bind ((lowerIndex_judged h (hargs i (by simp))).imp (hb i (by simp))
      fun _ _ _ hi => hi) fun x b₁ a₁ hi => ?_
    exact value_judged a₁.opened (VectorShape.getAt_advance ..) fun a b' => .get hi
  | remove =>
    obtain ⟨i, rfl⟩ := List.length_eq_one_iff.1 hlen
    refine Judged.bind ((lowerIndex_judged h (hargs i (by simp))).imp (hb i (by simp))
      fun _ _ _ hi => hi) fun x b₁ a₁ hi => ?_
    exact value_judged a₁.opened (VectorShape.removeAt_advance ..) fun a b' => .remove hi
  | add =>
    obtain ⟨o, rfl⟩ := List.length_eq_one_iff.1 hlen
    refine Judged.bind ((lowerElement_judged h (hargs o (by simp)) elem _).imp (hb o (by simp))
      fun _ _ _ hv => hv) ?_
    rintro _ b₁ a₁ ⟨v, hv, rfl, ht⟩
    exact effect_judged a₁.opened (VectorShape.append_advance ha ..) fun b₂ a b' => .add hv ht
  | set =>
    obtain ⟨i, o, rfl⟩ := List.length_eq_two.1 hlen
    refine Judged.bind ((lowerIndexAndElement_judged h (hargs i (by simp)) (hargs o (by simp)) elem
      _).imp (Or.rec (hb i (by simp)) (hb o (by simp))) fun _ _ _ hv => hv) ?_
    rintro ⟨x, _⟩ b₂ a₂ ⟨b₁, v, hi, hv, rfl, ht⟩
    exact effect_judged a₂.opened (VectorShape.setAt_advance ..) fun b₃ a b' => .set hi hv ht
  | insert =>
    obtain ⟨i, o, rfl⟩ := List.length_eq_two.1 hlen
    refine Judged.bind ((lowerIndexAndElement_judged h (hargs i (by simp)) (hargs o (by simp)) elem
      _).imp (Or.rec (hb i (by simp)) (hb o (by simp))) fun _ _ _ hv => hv) ?_
    rintro ⟨x, _⟩ b₂ a₂ ⟨b₁, v, hi, hv, rfl, ht⟩
    exact effect_judged a₂.opened (VectorShape.insertAt_advance ha ..) fun b₃ a b' => .insert hi hv ht

/-! ### Methods -/

theorem lowerMethodCall_judged (henv : env.Shaped) (h : b.Opened) {r : Operand} (hr : r.Sound env)
    (method : String) {args : List Operand} (hargs : ∀ o ∈ args, o.Sound env) (span : Span)
    (expected : Option Ty) :
    (lowerMethodCall env r method args span).Judged scope b
      (Blamed env scope (.methodCall span r.expr method (args.map (·.expr)))) fun v b' =>
      Lowers env scope (.methodCall span r.expr method (args.map (·.expr))) expected b v b' := by
  have hbr : Blamed env scope r.expr →
      Blamed env scope (.methodCall span r.expr method (args.map (·.expr))) :=
    .mono (by simp [Expr.mentions])
  have hb : ∀ o ∈ args, Blamed env scope o.expr →
      Blamed env scope (.methodCall span r.expr method (args.map (·.expr))) := fun o ho =>
    .mono fun m hm => by
      simp only [Expr.mentions, List.mem_append, Source.mem_mentionsAll]
      exact .inr ⟨o.expr, List.mem_map_of_mem ho, hm⟩
  unfold lowerMethodCall
  refine Judged.run_bind ((hr.judged none h).imp hbr fun _ _ _ hv => hv)
    (fun b₁ a₁ => abandonCall_judged a₁.opened (by simp) hargs fun _ => trivial)
    fun recv b₁ a₁ hrecv => ?_
  dsimp only
  split
  · rename_i elem ht
    unfold lowerVectorMethod
    split
    · exact abandonCall_judged (d := some _) a₁.opened (by simp [isPlain_unknownMethod]) hargs (by simp)
    · rename_i op hop
      split
      · exact abandonCall_judged (d := some _) a₁.opened (by simp [isPlain_argCount]) hargs (by simp)
      · rename_i hlen
        refine (lowerVectorOp_judged henv a₁.opened recv.value elem hargs (by simpa using hlen) hb).imp
          id fun v b' _ hv => ?_
        exact .vectorMethod hrecv ht hop hv
  · rename_i hne
    have ht : recv.ty.element? = none := by
      cases hty : recv.ty with
      | vector elem => exact absurd hty (hne elem)
      | _ => rfl
    unfold lowerUserMethod
    split
    · exact abandonCall_judged a₁.opened (by simp [isPlain_unknownMethod]) hargs (by simp)
    · rename_i symbol hm
      split
      · rename_i hnone
        have := henv.methods hm
        simp [hnone] at this
      · rename_i sig hsig
        refine (lowerCallTo_judged a₁.opened sig _ _ _ _ hargs span hb).imp id ?_
        rintro v b' - ⟨hlen, vs, b₂, hvs, hc⟩
        exact .method hrecv ht hm hsig (by simpa using hlen) hvs hc

/-- Lowers what is left for its diagnostics and fails, after a report or for the reason there is. -/
theorem abandon_judged {α : Type} {P : α → Builder → Prop} (h : b.Opened) {x : Lower Unit}
    (hx : ∀ {b : Builder}, b.Opened → x.Works scope b fun _ _ _ => True) :
    (do
      x
      Attempt.fail : Attempt α).Judged scope b True P :=
  Attempt.works_bind (hx h) fun _ _ _ a₁ _ => Lower.Works.pure a₁.opened (.inr trivial)

theorem reject_judged {α : Type} {P : α → Builder → Prop} (h : b.Opened) {d : Diag}
    (hd : isPlain d = true) {x : Lower Unit}
    (hx : ∀ {b : Builder}, b.Opened → x.Works scope b fun _ _ _ => True) :
    (do
      Lower.report d
      x
      Attempt.fail : Attempt α).Judged scope b B P := by
  refine Attempt.works_bind (Lower.works_report h hd) ?_
  rintro - b₁ _ a₁ ⟨rfl, -⟩
  refine Attempt.works_bind (hx a₁.opened) fun _ b₂ log a₂ _ => ?_
  exact Lower.Works.pure a₂.opened (.inl (by simp))

theorem lowerIndexing_judged (h : b.Opened) {r i : Operand} (hr : r.Sound env)
    (hi : i.Sound env) (span : Span) (expected : Option Ty) :
    (lowerIndexing env r i span).Judged scope b (Blamed env scope (.index span r.expr i.expr))
      fun v b' => Lowers env scope (.index span r.expr i.expr) expected b v b' := by
  have hbr : Blamed env scope r.expr → Blamed env scope (.index span r.expr i.expr) :=
    .mono (by simp [Expr.mentions])
  have hbi : Blamed env scope i.expr → Blamed env scope (.index span r.expr i.expr) :=
    .mono (by simp [Expr.mentions])
  unfold lowerIndexing
  refine Judged.run_bind ((hr.judged none h).imp hbr fun _ _ _ hv => hv)
    (fun b₁ a₁ => abandon_judged a₁.opened fun h => visit_works h hi) fun recv b₁ a₁ hrecv => ?_
  dsimp only
  split
  · exact reject_judged a₁.opened rfl fun h => visit_works h hi
  · rename_i elem ht
    refine Judged.bind ((lowerIndex_judged a₁.opened hi).imp hbi fun _ _ _ hv => hv)
      fun x b₂ a₂ hx => ?_
    refine Attempt.works_bind (vectorShape_works a₂.opened elem) ?_
    rintro _ _ _ - ⟨rfl, rfl, rfl⟩
    exact value_judged a₂.opened (VectorShape.getAt_advance ..) fun a b' => .index hrecv ht hx

/-! ### Records -/

theorem fieldAddress_judged (h : b.Opened) {r : Operand} (hr : r.Sound env) (name : String)
    (span : Span) :
    (fieldAddress env r name span).Judged scope b (Blamed env scope r.expr) fun p b' =>
      ∃ recv b₁ struct position, Lowers env scope r.expr none b recv b₁ ∧
        env.tables.field? recv.ty name = some (struct, position, p.2) ∧
        Emit.fieldPtr struct recv.value position name b₁ = (p.1, b') := by
  refine Judged.bind (hr.judged none h) fun recv b₁ a₁ hrecv => ?_
  split
  · exact Attempt.judged_reject a₁.opened rfl
  · rename_i struct position t hf
    refine Attempt.judged_emit a₁.opened (fieldPtr_inline ..).isAdvance fun addr b₂ a₂ ha => ?_
    exact .pure a₂.opened ⟨recv, b₁, struct, position, hrecv, hf, ha⟩

theorem lowerField_judged (h : b.Opened) {r : Operand} (hr : r.Sound env) (name : String) (span : Span)
    (expected : Option Ty) :
    (lowerField env r name span).Judged scope b (Blamed env scope (.field span r.expr name))
      fun v b' => Lowers env scope (.field span r.expr name) expected b v b' := by
  refine Judged.bind ((fieldAddress_judged h hr name span).imp (.mono (by simp [Expr.mentions]))
    fun _ _ _ hv => hv) ?_
  rintro ⟨addr, t⟩ b₂ a₂ ⟨recv, b₁, struct, position, hrecv, hf, hp⟩
  exact value_judged a₂.opened (load_inline ..).isAdvance fun a b' => .field hrecv hf hp

/-- The fields that have a value are those that have been met, as long as all is well. -/
def Initialised.Sound (acc : Initialised) : Prop := acc.ok = true → acc.seen = acc.values.map (·.1)

/-- The initialiser of a field has its value, or there is a reason why not all is well. -/
theorem lowerInit_works (h : b.Opened) (info : RecordInfo) (record : String) (acc : Initialised)
    (name : String) {o : Operand} (ho : o.Sound env) :
    (lowerInit info record acc name o).Works scope b fun acc' b' log =>
      (log = [] ∧ ∃ position t v, info.field? name = some (position, t) ∧ position ∉ acc.seen ∧
        Lowers env scope o.expr (some t) b v b' ∧ Types.assignable v.ty t = true ∧
        acc' = { acc with seen := position :: acc.seen, values := (position, v.value) :: acc.values }) ∨
      acc'.ok = false ∧ (log ≠ [] ∨ Blamed env scope o.expr) := by
  unfold lowerInit
  split
  · refine Lower.Works.bind (Lower.works_report h rfl) ?_
    rintro - b₁ _ a₁ ⟨rfl, -⟩
    refine Lower.Works.bind (visit_works a₁.opened ho) fun _ b₂ log a₂ _ => ?_
    exact .pure a₂.opened (.inr ⟨rfl, .inl (by simp)⟩)
  · rename_i position t hf
    split
    · refine Lower.Works.bind (Lower.works_report h rfl) ?_
      rintro - b₁ _ a₁ ⟨rfl, -⟩
      exact .pure a₁.opened (.inr ⟨rfl, .inl (by simp)⟩)
    · rename_i hnew
      refine Lower.Works.bind (lowerAs_judged h ho t _).run fun v b₁ log a₁ hv => ?_
      cases v with
      | none =>
        refine .pure a₁.opened (.inr ⟨rfl, ?_⟩)
        rw [List.append_nil]
        exact hv
      | some v =>
        obtain ⟨rfl, w, hw, rfl, ht⟩ := hv
        exact .pure a₁.opened (.inl ⟨rfl, position, t, w, hf, by simpa using hnew, hw, ht, rfl⟩)

theorem lowerInits_works (h : b.Opened) (info : RecordInfo) (record : String) (acc : Initialised)
    (hacc : acc.Sound) {inits : List (String × Operand)} (hi : ∀ i ∈ inits, i.2.Sound env) :
    (lowerInits info record acc inits).Works scope b fun acc' b' log =>
      (acc'.ok = true ∧ acc'.Sound ∧ acc.ok = true ∧ log = [] ∧
        LowersInits env scope info acc.values (inits.map fun i => (i.1, i.2.expr)) b acc'.values b') ∨
      acc'.ok = false ∧ (acc.ok = true → log ≠ [] ∨ ∃ i ∈ inits, Blamed env scope i.2.expr) := by
  induction inits generalizing b acc with
  | nil =>
    refine .pure h ?_
    cases hok : acc.ok with
    | true => exact .inl ⟨rfl, hacc, rfl, rfl, .nil⟩
    | false => exact .inr ⟨rfl, by simp⟩
  | cons init rest ih =>
    obtain ⟨name, o⟩ := init
    have ho : o.Sound env := hi (name, o) (by simp)
    have hrest : ∀ i ∈ rest, i.2.Sound env := fun i hmem => hi i (by simp [hmem])
    refine Lower.Works.bind (lowerInit_works h info record acc name ho) fun acc₁ b₁ log a₁ h₁ => ?_
    rcases h₁ with ⟨rfl, position, t, v, hf, hnew, hv, ht, rfl⟩ | ⟨hok, hbad⟩
    · -- this field is well, so the others decide
      refine (ih a₁.opened
        { acc with seen := position :: acc.seen, values := (position, v.value) :: acc.values }
        (fun hok => ?_) hrest).imp fun acc' b' log _ hr => ?_
      · rw [List.map_cons, ← hacc hok]
      · rcases hr with ⟨hok', hs, hok, hlog, hr⟩ | ⟨hok', hbad⟩
        · refine .inl ⟨hok', hs, hok, hlog, .cons hf ?_ hv ht hr⟩
          rw [← hacc hok]
          exact hnew
        · refine .inr ⟨hok', fun hok => (hbad hok).imp (by simp) ?_⟩
          rintro ⟨i, hmem, hb⟩
          exact ⟨i, by simp [hmem], hb⟩
    · -- this field is not, and the others cannot mend it
      refine (ih a₁.opened acc₁ (by simp [Initialised.Sound, hok]) hrest).imp fun acc' b' log' _ hr => ?_
      rcases hr with ⟨-, -, hok', -⟩ | ⟨hok', -⟩
      · rw [hok] at hok'
        cases hok'
      · exact .inr ⟨hok', fun _ => hbad.imp (by simp +contextual) fun hb => ⟨(name, o), by simp, hb⟩⟩

/-- A field that is left out is reported. -/
theorem reportMissing_works (h : b.Opened) (record : String) (span : Span) (seen : List Nat)
    (fields : List (String × Nat)) :
    (reportMissing record span seen fields).Works scope b fun _ b' log =>
      b' = b ∧ (log = [] ↔ fields.all (fun f => seen.contains f.2) = true) := by
  induction fields with
  | nil => exact .pure h (by simp)
  | cons f rest ih =>
    obtain ⟨name, position⟩ := f
    unfold reportMissing
    split
    · rename_i hout
      refine Lower.Works.bind (Lower.works_report h rfl) ?_
      rintro - _ _ - ⟨rfl, rfl⟩
      refine ih.imp fun _ b' log _ hr => ⟨hr.1, ?_⟩
      simp only [Bool.not_eq_true'] at hout
      simp only [List.all_cons, hout, Bool.false_and]
      simp
    · rename_i hin
      refine ih.imp fun _ b' log _ hr => ⟨hr.1, ?_⟩
      simp only [Bool.not_eq_true', Bool.not_eq_false] at hin
      simp only [List.all_cons, hin, Bool.true_and]
      exact hr.2

theorem storeFields_inline (info : RecordInfo) (object : ValueId) (values : List (Nat × ValueId))
    (fields : List (String × Nat)) : IsInline (storeFields info object values fields) := by
  induction fields with
  | nil => exact .pure ()
  | cons f rest ih =>
    obtain ⟨name, position⟩ := f
    unfold storeFields
    split
    · exact (fieldPtr_inline ..).bind fun _ => (store_inline ..).bind fun _ => ih
    · exact ih

theorem lowerRecord_judged (henv : env.Shaped) (h : b.Opened) (record : String)
    {inits : List (String × Operand)} (hi : ∀ i ∈ inits, i.2.Sound env) (span : Span)
    (expected : Option Ty) :
    (lowerRecord env record inits span).Judged scope b
      (Blamed env scope (.record span record (inits.map fun i => (i.1, i.2.expr)))) fun v b' =>
      Lowers env scope (.record span record (inits.map fun i => (i.1, i.2.expr))) expected b v b' := by
  unfold lowerRecord
  split
  · exact Attempt.judged_reject h rfl
  · rename_i info hinfo
    refine Attempt.works_bind (lowerInits_works h info record {} (fun _ => rfl) hi)
      fun acc b₁ log₁ a₁ hacc => ?_
    dsimp only
    refine Attempt.works_bind (reportMissing_works a₁.opened record span acc.seen _) ?_
    rintro - _ log₂ - ⟨rfl, hlog₂⟩
    split
    · rename_i hbad
      refine Lower.Works.pure a₁.opened ?_
      rcases hacc with ⟨hok, -⟩ | ⟨-, hbad⟩
      · have hne : log₂ ≠ [] := fun he => by
          rw [hok, hlog₂.1 he] at hbad
          cases hbad
        exact .inl (by simp [hne])
      · refine (hbad rfl).imp (by simp +contextual) ?_
        rintro ⟨i, hmem, m, hm, hp⟩
        refine ⟨m, ?_, hp⟩
        simp only [Expr.mentions, Source.mem_initMentions]
        exact ⟨_, List.mem_map_of_mem hmem, hm⟩
    · rename_i hgood
      simp only [Bool.or_eq_true, Bool.not_eq_true', not_or, Bool.not_eq_false] at hgood
      rcases hacc with ⟨hok, hs, -, rfl, hinits⟩ | ⟨hok, -⟩
      · obtain rfl := hlog₂.2 hgood.2
        refine Attempt.judged_get (fun _ => rfl) ?_
        dsimp only [State.plain]
        refine Attempt.judged_emit a₁.opened (constUsize_inline _).isAdvance fun size b₂ a₂ hsize => ?_
        refine Attempt.judged_emit a₂.opened (henv.allocator ..).isAdvance fun object b₃ a₃ ho => ?_
        refine Attempt.judged_emit a₃.opened (storeFields_inline ..).isAdvance fun _ b₄ a₄ hf => ?_
        refine .pure a₄.opened (.record hinfo hinits (fun f hmem => ?_) hsize ho hf)
        have hseen := List.all_eq_true.1 hgood.2 f hmem
        rw [hs hok] at hseen
        simpa [List.lookup_isSome_iff] using hseen
      · rw [hok] at hgood
        cases hgood.1

theorem lowerVectorNew_judged (henv : env.Shaped) (h : b.Opened) (t : TypeExpr) (span : Span)
    (expected : Option Ty) :
    (lowerVectorNew env t span).Judged scope b B fun v b' =>
      Lowers env scope (.vectorNew span t) expected b v b' := by
  unfold lowerVectorNew
  refine Judged.bind (resolve_judged h t span) ?_
  rintro elem _ - ⟨rfl, ht⟩
  refine Attempt.works_bind (vectorShape_works h elem) ?_
  rintro _ _ _ - ⟨rfl, rfl, rfl⟩
  refine Attempt.judged_get (fun _ => rfl) ?_
  exact value_judged h (VectorShape.new_inline (v := env.shapeAt elem _) henv.allocator ..).isAdvance
    fun a b' => .vectorNew ht

end

/-! ### Expressions -/

mutual

/-- Every expression is lowered by the rules or fails for a reason. -/
theorem operand_sound {env : Env} (henv : env.Shaped) :
    (e : Expr) → Operand.Sound env ⟨e, lowerExpr env e⟩
  | .int s v => ⟨fun expected h => lowerLiteral_judged h rfl expected⟩
  | .float s bits => ⟨fun expected h => lowerLiteral_judged h rfl expected⟩
  | .bool _ v => ⟨fun _ h => value_judged h (constBool_inline v).isAdvance fun _ _ => .bool⟩
  | .char _ c => ⟨fun _ h => value_judged h (constInt_inline ..).isAdvance fun _ _ => .char⟩
  | .str _ text => ⟨fun _ h => value_judged h (globalString_inline text).isAdvance fun _ _ => .str⟩
  | .unit _ => ⟨fun _ h => unit_judged h fun _ _ => .unit⟩
  | .null _ => ⟨fun _ h => value_judged h constNull_inline.isAdvance fun _ _ => .null⟩
  | .ident s name => ⟨fun expected h => lowerIdent_judged h name s expected⟩
  | .unary s op e => ⟨fun {scope b} expected h => by
    dsimp only
    rw [lowerExpr]
    split
    · rename_i kind hk
      exact lowerLiteral_judged h hk expected
    · rename_i hn
      exact lowerUnary_judged h op (operand_sound henv e) s expected hn⟩
  | .binary s op l r => ⟨fun {scope b} expected h => by
    dsimp only
    rw [lowerExpr]
    split
    · rename_i kind hk
      exact lowerLiteral_judged h hk expected
    · rename_i hn
      exact lowerBinary_judged h op (operand_sound henv l) (operand_sound henv r) s hn expected⟩
  | .cast s e t => ⟨fun expected h => lowerCast_judged h (operand_sound henv e) t s expected⟩
  | .call s callee args => ⟨fun {scope b} expected h => by
    have : Judged (lowerCall env callee (operands env args) s) scope b _ _ :=
      lowerCall_judged h callee (operands_sound henv args) s expected
    rw [operands_expr] at this
    exact this⟩
  | .methodCall s r method args => ⟨fun {scope b} expected h => by
    have : Judged (lowerMethodCall env (operand env r) method (operands env args) s) scope b _ _ :=
      lowerMethodCall_judged henv h (operand_sound henv r) method (operands_sound henv args) s expected
    rw [operands_expr] at this
    exact this⟩
  | .field s r name => ⟨fun expected h => lowerField_judged h (operand_sound henv r) name s expected⟩
  | .index s r i => ⟨fun expected h =>
      lowerIndexing_judged h (operand_sound henv r) (operand_sound henv i) s expected⟩
  | .record s name inits => ⟨fun {scope b} expected h => by
    have : Judged (lowerRecord env name (initOperands env inits) s) scope b _ _ :=
      lowerRecord_judged henv h name (initOperands_sound henv inits) s expected
    rw [initOperands_expr] at this
    exact this⟩
  | .vectorNew s t => ⟨fun expected h => lowerVectorNew_judged henv h t s expected⟩
termination_by structural e => e

theorem operands_sound {env : Env} (henv : env.Shaped) :
    (es : List Expr) → ∀ o ∈ operands env es, o.Sound env
  | [] => by simp [operands]
  | e :: rest => by
    simp only [operands, List.mem_cons, forall_eq_or_imp]
    exact ⟨operand_sound henv e, operands_sound henv rest⟩
termination_by structural es => es

theorem initOperands_sound {env : Env} (henv : env.Shaped) :
    (es : List (String × Expr)) → ∀ i ∈ initOperands env es, i.2.Sound env
  | [] => by simp [initOperands]
  | (name, e) :: rest => by
    simp only [initOperands, List.mem_cons, forall_eq_or_imp]
    exact ⟨operand_sound henv e, initOperands_sound henv rest⟩
termination_by structural es => es

end

end BlockForge.Lowering
