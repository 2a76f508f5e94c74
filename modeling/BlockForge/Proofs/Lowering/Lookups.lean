import BlockForge.Proofs.Lowering.Judgement

/-!
# Undefined names in expressions

A name that is looked up and not found is reported, whatever else is wrong around it: the lowering of an
expression goes on with the other operands when one of them fails. `Reads` says which names an expression
looks up. There are four places it does not get to: the right operand of `and` and `or` when the left one
fails, the operand of a conversion to an unknown type, the initialisers of an unknown record type, and a
field's second initialiser.
-/

namespace BlockForge.Lowering

open Diagnostic (Diag)
open Ir (BlockId Builder Emit ValueId)
open Ir.Emit
open Source (BinaryOp Expr Span TypeExpr UnaryOp)
open BlockForge.Types (LitKind Ty)

/-! ### Failing with a report -/

namespace Attempt

variable {α β : Type} {scope : Scope} {b : Builder} {d : Diag}

/-- Fails, and has submitted `d`. -/
def Tells (x : Attempt α) (scope : Scope) (b : Builder) (d : Diag) : Prop :=
  x.run.Works scope b fun r _ log => r = none ∧ d ∈ log

/-- What needs the result of a failure fails with it. -/
theorem Tells.bind {x : Attempt α} {f : α → Attempt β} (h : x.Tells scope b d) :
    (x >>= f).Tells scope b d := by
  refine Lower.Works.bind h ?_
  rintro _ b₁ log a₁ ⟨rfl, hd⟩
  exact Lower.Works.pure a₁.opened ⟨rfl, by simp [hd]⟩

/-- A failure at the end of something that goes on in any case. -/
theorem Tells.after {x : Lower α} {f : α → Attempt β} {R : α → Builder → List Diag → Prop}
    (h : x.Works scope b R)
    (k : ∀ a b' log, Emit.Advances b b' → R a b' log → (f a).Tells scope b' d) :
    (liftM x >>= f : Attempt β).Tells scope b d :=
  works_bind h fun a b' log ha hr => (k a b' log ha hr).imp fun _ _ _ _ hd =>
    ⟨hd.1, by simp [hd.2]⟩

/-- A report is followed by more work, which fails. -/
theorem Tells.before {x : Lower α} {f : α → Attempt β} {R : α → Builder → List Diag → Prop}
    (h : x.Works scope b fun a b' log => R a b' log ∧ d ∈ log)
    (k : ∀ a b' log, Emit.Advances b b' → R a b' log →
      (f a).run.Works scope b' fun r _ _ => r = none) :
    (liftM x >>= f : Attempt β).Tells scope b d :=
  works_bind h fun a b' log ha hr => (k a b' log ha hr.1).imp fun _ _ _ _ hn =>
    ⟨hn, by simp [hr.2]⟩

theorem works_fail (h : b.Opened) : (fail : Attempt α).run.Works scope b fun r _ _ => r = none :=
  Lower.Works.pure h rfl

end Attempt

open Attempt (Judged Tells Verdict)

/-- An operand that fails with a report of `d`, wherever it is lowered. -/
def Operand.Tells (o : Operand) (scope : Scope) (d : Diag) : Prop :=
  ∀ {b : Builder} (expected : Option Ty), b.Opened → (o.lower expected).Tells scope b d

/-- An operand that gives a `bool`, wherever it is lowered. -/
def Operand.Accepted (o : Operand) (scope : Scope) : Prop :=
  ∀ s : State, s.scope = scope → s.builder.Opened →
    ∃ v, ((o.lower (some .bool)).run s).1 = some v ∧ v.ty = .bool

section

variable {env : Env} {scope : Scope} {b : Builder} {d : Diag}

theorem lowerAs_tells (h : b.Opened) {o : Operand} (ho : o.Tells scope d) (target : Ty)
    (context : String) : (o.lowerAs target context).Tells scope b d := (ho _ h).bind

theorem visit_tells (h : b.Opened) {o : Operand} (ho : o.Tells scope d) :
    o.visit.Works scope b fun _ _ log => d ∈ log := by
  refine Lower.Works.bind (ho none h) ?_
  rintro _ b₁ log a₁ ⟨rfl, hd⟩
  exact Lower.Works.pure a₁.opened (by simp [hd])

theorem visitAll_tells (h : b.Opened) {os : List Operand} (hos : ∀ o ∈ os, o.Sound env) {o : Operand}
    (hmem : o ∈ os) (ho : o.Tells scope d) : (visitAll os).Works scope b fun _ _ log => d ∈ log := by
  induction os generalizing b with
  | nil => cases hmem
  | cons o' rest ih =>
    have hrest : ∀ o ∈ rest, o.Sound env := fun o ho => hos o (by simp [ho])
    rcases List.mem_cons.1 hmem with rfl | hmem
    · refine Lower.Works.bind (visit_tells h ho) fun _ b₁ log a₁ hd => ?_
      exact (visitAll_works a₁.opened hrest).imp fun _ _ _ _ _ => by simp [hd]
    · refine Lower.Works.bind (visit_works h (hos o' (by simp))) fun _ b₁ log a₁ _ => ?_
      exact (ih a₁.opened hrest hmem).imp fun _ _ _ _ hd => by simp [hd]

/-! ### Variables and operators -/

theorem lowerIdent_tells (h : b.Opened) {name : String} (hn : scope.lookup? name = none) (span : Span) :
    (lowerIdent env name span).Tells scope b (Diagnostic.unknownIdentifier span name) := by
  refine Attempt.traces_get_bind (fun _ => rfl) ?_
  dsimp only [State.plain]
  rw [hn]
  refine Attempt.works_bind (Lower.works_report h rfl) ?_
  rintro - b₁ _ a₁ ⟨rfl, rfl⟩
  exact Lower.Works.pure a₁.opened ⟨rfl, by simp⟩

theorem lowerUnary_tells (h : b.Opened) (op : UnaryOp) {o : Operand} (ho : o.Tells scope d) (span : Span)
    (expected : Option Ty) : (lowerUnary op o span expected).Tells scope b d := (ho _ h).bind

theorem lowerCast_tells (h : b.Opened) {o : Operand} (ho : o.Tells scope d) {t : TypeExpr} {target : Ty}
    (ht : env.tables.resolve t = .ok target) (span : Span) :
    (lowerCast env o t span).Tells scope b d := by
  have hresolve : Attempt.resolve env t span = pure target := by
    unfold Attempt.resolve
    rw [ht]
  unfold lowerCast
  rw [hresolve]
  exact (ho (castHint env o.expr target) h).bind

/-- The right operand is lowered even if the left one has failed. -/
theorem lowerBoth_tells_left (h : b.Opened) {l r : Operand} (hl : l.Tells scope d) (hr : r.Sound env)
    (expected : Option Ty) : (lowerBoth l r expected).Tells scope b d := by
  refine Attempt.works_bind (hl expected h) ?_
  rintro _ b₁ log₁ a₁ ⟨rfl, hd⟩
  refine Attempt.works_bind (hr.judged expected a₁.opened).run fun y b₂ log₂ a₂ _ => ?_
  exact Lower.Works.pure a₂.opened ⟨rfl, by simp [hd]⟩

theorem lowerBoth_tells_right (h : b.Opened) {l r : Operand} (hl : l.Sound env) (hr : r.Tells scope d)
    (expected : Option Ty) : (lowerBoth l r expected).Tells scope b d := by
  refine Attempt.works_bind (hl.judged expected h).run fun x b₁ log₁ a₁ _ => ?_
  refine Attempt.works_bind (hr expected a₁.opened) ?_
  rintro _ b₂ log₂ a₂ ⟨rfl, hd⟩
  cases x with
  | none => exact Lower.Works.pure a₂.opened ⟨rfl, by simp [hd]⟩
  | some x => exact Lower.Works.pure a₂.opened ⟨rfl, by simp [hd]⟩

theorem lowerOperands_tells_left (h : b.Opened) (op : BinaryOp) {l r : Operand} (hl : l.Tells scope d)
    (hr : r.Sound env) (hk : literalKind l.expr = none) (span : Span) :
    (lowerOperands op l r span).Tells scope b d := by
  unfold lowerOperands
  rw [hk]
  cases literalKind r.expr with
  | none => exact lowerBoth_tells_left h hl hr none
  | some kind => exact (hl none h).bind

theorem lowerOperands_tells_right (h : b.Opened) (op : BinaryOp) {l r : Operand} (hl : l.Sound env)
    (hr : r.Tells scope d) (hk : literalKind r.expr = none) (span : Span) :
    (lowerOperands op l r span).Tells scope b d := by
  unfold lowerOperands
  rw [hk]
  cases literalKind l.expr with
  | none => exact lowerBoth_tells_right h hl hr none
  | some kind => exact (hr none h).bind

/-- Comparisons are folded only between literals. -/
theorem foldComparison?_eq_none (env : Env) (op : BinaryOp) {l r : Expr}
    (hk : literalKind l = none ∨ literalKind r = none) : foldComparison? env op l r = none := by
  unfold foldComparison?
  rcases hk with hk | hk
  · rw [hk]
    rfl
  · rw [hk]
    cases literalKind l <;> rfl

theorem lowerBoolOperand_tells (h : b.Opened) (op : BinaryOp) {o : Operand} (ho : o.Tells scope d) :
    (lowerBoolOperand op o).Tells scope b d := (ho _ h).bind

/-- An operand that is a `bool` is taken for one. -/
theorem lowerBoolOperand_of_accepted (h : b.Opened) (op : BinaryOp) {o : Operand} (ho : o.Sound env)
    (hacc : o.Accepted scope) :
    (lowerBoolOperand op o).run.Works scope b fun r _ _ => ∃ a, r = some a := by
  obtain ⟨r, b₁, log, hy, hp, ha, -⟩ := (lowerBoolOperand_judged h op ho : Judged _ scope b _ _)
  refine ⟨r, b₁, log, hy, hp, ha, ?_⟩
  obtain ⟨v, hv, ht⟩ := hacc (.plain b scope) rfl h
  have hrun : ((lowerBoolOperand op o).run (.plain b scope)).1 = some v.value := by
    cases hl : (o.lower (some .bool)).run (.plain b scope) with
    | mk r s =>
      obtain rfl : r = some v := by rw [← hv, hl]
      simp only [lowerBoolOperand, Bind.bind, StateT.bind, hl, ht]
      rfl
  rw [hy _ rfl rfl] at hrun
  exact ⟨_, hrun⟩

/-- The right operand of `and` or `or` is lowered if the left one is a `bool`. -/
theorem lowerShortCircuit_tells_right (h : b.Opened) (op : BinaryOp) {l r : Operand} (hl : l.Sound env)
    (hacc : l.Accepted scope) (hr : r.Tells scope d) : (lowerShortCircuit op l r).Tells scope b d := by
  unfold lowerShortCircuit
  dsimp only
  refine Lower.Works.bind (lowerBoolOperand_of_accepted h op hl hacc) ?_
  rintro _ b₁ log₁ a₁ ⟨x, rfl⟩
  refine Attempt.traces_get_bind (fun _ => rfl) ?_
  dsimp only [State.plain]
  obtain ⟨origin, hc, -⟩ := a₁.opened.position
  rw [hc]
  refine Attempt.traces_of_some (Attempt.traces_bind (Lower.traces_emit _) ?_)
  rintro rhs b₂ _ ⟨rfl, h₂⟩
  refine Attempt.traces_bind (Lower.traces_emit _) ?_
  rintro merge b₃ _ ⟨rfl, h₃⟩
  refine Attempt.traces_bind (Lower.traces_emit _) ?_
  rintro ⟨⟩ b₄ _ ⟨rfl, h₄⟩
  refine Attempt.traces_bind (Lower.traces_emit _) ?_
  rintro ⟨⟩ b₅ _ ⟨rfl, h₅⟩
  obtain ⟨ho₅, hjoin⟩ := fork_advances a₁.opened hc h₂ h₃ h₄ h₅
  refine Attempt.traces_bind (lowerBoolOperand_tells ho₅ op hr) ?_
  rintro _ b₆ log ⟨a₆, rfl, hd⟩
  refine Attempt.traces_get_bind (fun _ => rfl) (Attempt.traces_get_bind (fun _ => rfl) ?_)
  obtain ⟨exit, he, -, hopen⟩ := a₆.opened.position
  have hterm : b₆.currentTerminated = false := by
    simp [Builder.currentTerminated, he, Builder.hasTerminator_eq, hopen]
  simp only [State.plain, he, hterm, Option.getD_some, Bool.not_false, if_true, List.nil_append]
  refine Attempt.traces_bind (Lower.traces_emit _) ?_
  rintro ⟨⟩ b₇ _ ⟨rfl, h₇⟩
  refine Attempt.traces_bind (Lower.traces_emit _) ?_
  rintro ⟨⟩ b₈ _ ⟨rfl, h₈⟩
  exact ⟨none, b₈, [], .pure none, .nil, hjoin a₆ h₇ h₈, rfl, by simp [hd]⟩

theorem lowerBinary_tells_left (h : b.Opened) (op : BinaryOp) {l r : Operand} (hl : l.Tells scope d)
    (hr : r.Sound env) (hk : literalKind l.expr = none) (span : Span) :
    (lowerBinary env op l r span).Tells scope b d := by
  unfold lowerBinary
  split
  · exact (lowerBoolOperand_tells h op hl).bind
  · rw [foldComparison?_eq_none env op (.inl hk), ite_self]
    exact (lowerOperands_tells_left h op hl hr hk span).bind

theorem lowerBinary_tells_right (h : b.Opened) (op : BinaryOp) {l r : Operand} (hl : l.Sound env)
    (hr : r.Tells scope d) (hk : literalKind r.expr = none)
    (hacc : op.isLogical = true → l.Accepted scope) (span : Span) :
    (lowerBinary env op l r span).Tells scope b d := by
  unfold lowerBinary
  split
  · rename_i hop
    exact lowerShortCircuit_tells_right h op hl (hacc hop) hr
  · rw [foldComparison?_eq_none env op (.inr hk), ite_self]
    exact (lowerOperands_tells_right h op hl hr hk span).bind

/-! ### Calls -/

/-- All arguments are lowered, whichever of them fails. -/
theorem lowerArgs_tells (h : b.Opened) (callee : String) (position : Nat) {args : List (Operand × Ty)}
    (hargs : ∀ a ∈ args, a.1.Sound env) {arg : Operand × Ty} (hmem : arg ∈ args)
    (harg : arg.1.Tells scope d) :
    (lowerArgs callee position args).Works scope b fun r _ log => r = none ∧ d ∈ log := by
  induction args generalizing b position with
  | nil => cases hmem
  | cons a rest ih =>
    obtain ⟨o, t⟩ := a
    have hrest : ∀ a ∈ rest, a.1.Sound env := fun a ha => hargs a (by simp [ha])
    rcases List.mem_cons.1 hmem with rfl | hmem
    · refine Lower.Works.bind (lowerAs_tells h harg t _) ?_
      rintro _ b₁ log₁ a₁ ⟨rfl, hd⟩
      refine Lower.Works.bind (lowerArgs_works a₁.opened callee (position + 1) hrest)
        fun vs b₂ log₂ a₂ _ => ?_
      exact Lower.Works.pure a₂.opened ⟨rfl, by simp [hd]⟩
    · have ho : o.Sound env := hargs (o, t) (by simp)
      refine Lower.Works.bind (lowerAs_judged h ho t _).run fun v b₁ log₁ a₁ _ => ?_
      refine Lower.Works.bind (ih a₁.opened (position + 1) hrest hmem) ?_
      rintro _ b₂ log₂ a₂ ⟨rfl, hd⟩
      refine Lower.Works.pure a₂.opened ⟨?_, by simp [hd]⟩
      cases v <;> rfl

theorem abandonCall_tells (h : b.Opened) {p : Option Diag}
    (hp : ∀ e, p = some e → isPlain e = true) {args : List Operand}
    (hargs : ∀ o ∈ args, o.Sound env) {arg : Operand} (hmem : arg ∈ args) (harg : arg.Tells scope d) :
    (abandonCall p args).Tells scope b d := by
  have hvisit : ∀ {b : Builder}, b.Opened →
      (liftM (visitAll args) >>= fun _ => Attempt.fail : Attempt Typed).Tells scope b d :=
    fun h => Attempt.Tells.before (R := fun _ _ _ => True)
      ((visitAll_tells h hargs hmem harg).imp fun _ _ _ _ hd => ⟨trivial, hd⟩)
      fun _ _ _ a₁ _ => Attempt.works_fail a₁.opened
  cases p with
  | none => exact hvisit h
  | some e =>
    exact Attempt.Tells.after (Lower.works_report h (hp e rfl)) fun _ b₁ _ a₁ _ => hvisit a₁.opened

theorem lowerCallTo_tells (h : b.Opened) (sig : Signature) (what name symbol : String)
    (first : List ValueId) {args : List Operand} (hargs : ∀ o ∈ args, o.Sound env) {arg : Operand}
    (hmem : arg ∈ args) (harg : arg.Tells scope d) (span : Span) :
    (lowerCallTo sig what name symbol first args span).Tells scope b d := by
  unfold lowerCallTo
  split
  · refine abandonCall_tells h ?_ hargs hmem harg
    rintro e he
    cases he
    rfl
  · rename_i hlen
    have hzip : ∀ a ∈ args.zip sig.params, a.1.Sound env :=
      fun a ha => hargs a.1 (List.of_mem_zip ha).1
    obtain ⟨i, hi, rfl⟩ := List.getElem_of_mem hmem
    have hi' : i < (args.zip sig.params).length := by
      rw [List.length_zip]
      omega
    have hget : ((args.zip sig.params)[i]).1 = args[i] := by simp
    refine Attempt.works_bind (lowerArgs_tells h name 1 hzip (List.getElem_mem hi') (hget ▸ harg)) ?_
    rintro _ b₁ log a₁ ⟨rfl, hd⟩
    exact Lower.Works.pure a₁.opened ⟨rfl, by simp [hd]⟩

theorem lowerCall_tells (h : b.Opened) (callee : String) {args : List Operand}
    (hargs : ∀ o ∈ args, o.Sound env) {arg : Operand} (hmem : arg ∈ args) (harg : arg.Tells scope d)
    (span : Span) : (lowerCall env callee args span).Tells scope b d := by
  unfold lowerCall
  split
  · exact lowerCallTo_tells h _ _ _ _ _ hargs hmem harg span
  · split
    · exact abandonCall_tells h (by simp) hargs hmem harg
    · refine abandonCall_tells h ?_ hargs hmem harg
      rintro e he
      cases he
      rfl

/-! ### Vectors -/

theorem lowerIndex_tells (h : b.Opened) {o : Operand} (ho : o.Tells scope d) :
    (lowerIndex o).Tells scope b d := (ho _ h).bind

theorem lowerElement_tells (h : b.Opened) {o : Operand} (ho : o.Tells scope d) (elem : Ty)
    (context : String) : (lowerElement o elem context).Tells scope b d := (lowerAs_tells h ho elem _).bind

theorem lowerIndexAndElement_tells (h : b.Opened) {i o : Operand} (hi : i.Sound env) (ho : o.Sound env)
    {arg : Operand} (hmem : arg ∈ [i, o]) (harg : arg.Tells scope d) (elem : Ty) (context : String) :
    (lowerIndexAndElement i o elem context).Tells scope b d := by
  simp only [List.mem_cons, List.not_mem_nil, or_false] at hmem
  rcases hmem with rfl | rfl
  · refine Attempt.works_bind (lowerIndex_tells h harg) ?_
    rintro _ b₁ log₁ a₁ ⟨rfl, hd⟩
    refine Attempt.works_bind (lowerElement_judged a₁.opened ho elem context).run fun y b₂ log₂ a₂ _ => ?_
    exact Lower.Works.pure a₂.opened ⟨rfl, by simp [hd]⟩
  · refine Attempt.works_bind (lowerIndex_judged h hi).run fun x b₁ log₁ a₁ _ => ?_
    refine Attempt.works_bind (lowerElement_tells a₁.opened harg elem context) ?_
    rintro _ b₂ log₂ a₂ ⟨rfl, hd⟩
    cases x with
    | none => exact Lower.Works.pure a₂.opened ⟨rfl, by simp [hd]⟩
    | some x => exact Lower.Works.pure a₂.opened ⟨rfl, by simp [hd]⟩

theorem lowerVectorOp_tells (h : b.Opened) {op : VectorOp} (desc : ValueId) (elem : Ty)
    {args : List Operand} (hargs : ∀ o ∈ args, o.Sound env) (hlen : args.length = op.arity)
    {arg : Operand} (hmem : arg ∈ args) (harg : arg.Tells scope d) :
    (lowerVectorOp env op desc elem args).Tells scope b d := by
  refine Attempt.Tells.after (vectorShape_works h elem) ?_
  rintro _ _ _ - ⟨rfl, rfl, rfl⟩
  cases op with
  | size | capacity =>
    obtain rfl := List.length_eq_zero_iff.1 hlen
    cases hmem
  | get | remove =>
    obtain ⟨i, rfl⟩ := List.length_eq_one_iff.1 hlen
    obtain rfl := List.mem_singleton.1 hmem
    exact (lowerIndex_tells h harg).bind
  | add =>
    obtain ⟨o, rfl⟩ := List.length_eq_one_iff.1 hlen
    obtain rfl := List.mem_singleton.1 hmem
    exact (lowerElement_tells h harg elem _).bind
  | set | insert =>
    obtain ⟨i, o, rfl⟩ := List.length_eq_two.1 hlen
    exact (lowerIndexAndElement_tells h (hargs i (by simp)) (hargs o (by simp)) hmem harg elem _).bind

theorem lowerVectorMethod_tells (h : b.Opened) (recv : Typed) (elem : Ty) (method : String)
    {args : List Operand} (hargs : ∀ o ∈ args, o.Sound env) {arg : Operand} (hmem : arg ∈ args)
    (harg : arg.Tells scope d) (span : Span) :
    (lowerVectorMethod env recv elem method args span).Tells scope b d := by
  unfold lowerVectorMethod
  split
  · exact abandonCall_tells (p := some _) h (by simp [isPlain_unknownMethod]) hargs hmem harg
  · split
    · exact abandonCall_tells (p := some _) h (by simp [isPlain_argCount]) hargs hmem harg
    · rename_i hlen
      exact lowerVectorOp_tells h recv.value elem hargs (by simpa using hlen) hmem harg

theorem lowerUserMethod_tells (h : b.Opened) (recv : Typed) (method : String) {args : List Operand}
    (hargs : ∀ o ∈ args, o.Sound env) {arg : Operand} (hmem : arg ∈ args) (harg : arg.Tells scope d)
    (span : Span) : (lowerUserMethod env recv method args span).Tells scope b d := by
  unfold lowerUserMethod
  split
  · exact abandonCall_tells h (by simp [isPlain_unknownMethod]) hargs hmem harg
  · split
    · exact abandonCall_tells h (by simp) hargs hmem harg
    · exact lowerCallTo_tells h _ _ _ _ _ hargs hmem harg span

theorem lowerMethodCall_tells_receiver (h : b.Opened) {r : Operand} (hr : r.Tells scope d)
    (method : String) {args : List Operand} (hargs : ∀ o ∈ args, o.Sound env) (span : Span) :
    (lowerMethodCall env r method args span).Tells scope b d := by
  refine Attempt.Tells.before (R := fun r _ _ => r = none) (hr none h) ?_
  rintro _ b₁ log a₁ rfl
  exact Attempt.works_bind (visitAll_works a₁.opened hargs)
    fun _ _ _ a₂ _ => Attempt.works_fail a₂.opened

/-- The arguments of a method are lowered even if there is no receiver. -/
theorem lowerMethodCall_tells_arg (h : b.Opened) {r : Operand} (hr : r.Sound env) (method : String)
    {args : List Operand} (hargs : ∀ o ∈ args, o.Sound env) {arg : Operand} (hmem : arg ∈ args)
    (harg : arg.Tells scope d) (span : Span) :
    (lowerMethodCall env r method args span).Tells scope b d := by
  refine Attempt.Tells.after (hr.judged none h).run fun recv b₁ log a₁ _ => ?_
  cases recv with
  | none => exact abandonCall_tells a₁.opened (by simp) hargs hmem harg
  | some recv =>
    dsimp only
    split
    · exact lowerVectorMethod_tells a₁.opened recv _ method hargs hmem harg span
    · exact lowerUserMethod_tells a₁.opened recv method hargs hmem harg span

theorem visit_fail_tells (h : b.Opened) {o : Operand} (ho : o.Tells scope d) :
    (liftM o.visit >>= fun _ => Attempt.fail : Attempt Typed).Tells scope b d :=
  Attempt.Tells.before (R := fun _ _ _ => True) ((visit_tells h ho).imp fun _ _ _ _ hd => ⟨trivial, hd⟩)
    fun _ _ _ a₁ _ => Attempt.works_fail a₁.opened

theorem lowerIndexing_tells_receiver (h : b.Opened) {r i : Operand} (hr : r.Tells scope d)
    (hi : i.Sound env) (span : Span) : (lowerIndexing env r i span).Tells scope b d := by
  refine Attempt.Tells.before (R := fun r _ _ => r = none) (hr none h) ?_
  rintro _ b₁ log a₁ rfl
  exact Attempt.works_bind (visit_works a₁.opened hi) fun _ _ _ a₂ _ => Attempt.works_fail a₂.opened

theorem lowerIndexing_tells_index (h : b.Opened) {r i : Operand} (hr : r.Sound env)
    (hi : i.Tells scope d) (span : Span) : (lowerIndexing env r i span).Tells scope b d := by
  refine Attempt.Tells.after (hr.judged none h).run fun recv b₁ log a₁ _ => ?_
  cases recv with
  | none => exact visit_fail_tells a₁.opened hi
  | some recv =>
    dsimp only
    split
    · exact Attempt.Tells.after (Lower.works_report a₁.opened rfl)
        fun _ b₂ _ a₂ _ => visit_fail_tells a₂.opened hi
    · exact (lowerIndex_tells a₁.opened hi).bind

/-! ### Records -/

theorem lowerField_tells (h : b.Opened) {r : Operand} (hr : r.Tells scope d) (name : String)
    (span : Span) : (lowerField env r name span).Tells scope b d :=
  Attempt.Tells.bind (Attempt.Tells.bind (hr none h))

/-- The positions met after an initialiser are those before it and its own. -/
theorem lowerInit_seen (h : b.Opened) (info : RecordInfo) (record : String) (acc : Initialised)
    (name : String) {o : Operand} (ho : o.Sound env) :
    (lowerInit info record acc name o).Works scope b fun acc' _ _ =>
      ∀ position ∈ acc'.seen, position ∈ acc.seen ∨ ∃ t, info.field? name = some (position, t) := by
  unfold lowerInit
  split
  · refine Lower.Works.bind (Lower.works_report h rfl) fun _ b₁ _ a₁ _ => ?_
    refine Lower.Works.bind (visit_works a₁.opened ho) fun _ b₂ log a₂ _ => ?_
    exact .pure a₂.opened fun position hp => .inl hp
  · rename_i position t hf
    split
    · refine Lower.Works.bind (Lower.works_report h rfl) fun _ b₁ _ a₁ _ => ?_
      exact .pure a₁.opened fun position hp => .inl hp
    · refine Lower.Works.bind (lowerAs_judged h ho t _).run fun v b₁ log a₁ _ => ?_
      have hseen : ∀ i ∈ position :: acc.seen, i ∈ acc.seen ∨ ∃ t, info.field? name = some (i, t) := by
        intro i hi
        rcases List.mem_cons.1 hi with rfl | hi
        · exact .inr ⟨t, hf⟩
        · exact .inl hi
      cases v with
      | none => exact .pure a₁.opened hseen
      | some v => exact .pure a₁.opened hseen

/-- An initialiser is lowered unless its field has been met. -/
theorem lowerInit_tells (h : b.Opened) (info : RecordInfo) (record : String) (acc : Initialised)
    {name : String} {o : Operand} (ho : o.Tells scope d)
    (hnew : ∀ {position t}, info.field? name = some (position, t) → position ∉ acc.seen) :
    (lowerInit info record acc name o).Works scope b fun acc' _ log => acc'.ok = false ∧ d ∈ log := by
  unfold lowerInit
  split
  · refine Lower.Works.bind (Lower.works_report h rfl) fun _ b₁ _ a₁ _ => ?_
    refine Lower.Works.bind (visit_tells a₁.opened ho) fun _ b₂ log a₂ hd => ?_
    exact .pure a₂.opened ⟨rfl, by simp [hd]⟩
  · rename_i position t hf
    rw [if_neg (by simpa using hnew hf)]
    refine Lower.Works.bind (lowerAs_tells h ho t _) ?_
    rintro _ b₁ log a₁ ⟨rfl, hd⟩
    exact .pure a₁.opened ⟨rfl, by simp [hd]⟩

/-- Fields are told apart by their positions. -/
theorem RecordInfo.field?_inj {info : RecordInfo} {x y : String} {position : Nat} {t u : Ty}
    (hx : info.field? x = some (position, t)) (hy : info.field? y = some (position, u)) : x = y := by
  have hname : ∀ {z w}, info.field? z = some (position, w) → ∃ f, info.fields[position]? = some f ∧
      f.1 = z := by
    intro z w hz
    obtain ⟨i, hi, hz⟩ := Option.bind_eq_some_iff.1 hz
    obtain ⟨f, hf, hp⟩ := Option.map_eq_some_iff.1 hz
    cases hp
    obtain ⟨hlt, hz, -⟩ := List.findIdx?_eq_some_iff_getElem.1 hi
    exact ⟨info.fields[position], List.getElem?_eq_getElem hlt, by simpa using hz⟩
  obtain ⟨f, hf, rfl⟩ := hname hx
  obtain ⟨g, hg, rfl⟩ := hname hy
  rw [Option.some.inj (hf.symm.trans hg)]

/-- Where all is not well, more initialisers do not mend it. -/
theorem lowerInits_tells (h : b.Opened) (info : RecordInfo) (record : String) (acc : Initialised)
    {pre post : List (String × Operand)} {name : String} {o : Operand}
    (hi : ∀ i ∈ pre ++ (name, o) :: post, i.2.Sound env) (ho : o.Tells scope d)
    (hnew : ∀ {position t}, info.field? name = some (position, t) → position ∉ acc.seen)
    (hpre : info.field? name = none ∨ ∀ i ∈ pre, i.1 ≠ name) :
    (lowerInits info record acc (pre ++ (name, o) :: post)).Works scope b fun acc' _ log =>
      acc'.ok = false ∧ d ∈ log := by
  induction pre generalizing b acc with
  | nil =>
    refine Lower.Works.bind (lowerInit_tells h info record acc ho hnew) fun acc₁ b₁ log a₁ h₁ => ?_
    have hpost : ∀ i ∈ post, i.2.Sound env := fun i hmem => hi i (by simp [hmem])
    refine (lowerInits_works a₁.opened info record acc₁ (by simp [Initialised.Sound, h₁.1])
      hpost).imp fun acc' b' log' _ hr => ?_
    rcases hr with ⟨-, -, hok, -⟩ | ⟨hok, -⟩
    · rw [h₁.1] at hok
      cases hok
    · exact ⟨hok, by simp [h₁.2]⟩
  | cons init rest ih =>
    obtain ⟨other, o'⟩ := init
    refine Lower.Works.bind (lowerInit_seen h info record acc other (hi (other, o') (by simp)))
      fun acc₁ b₁ log a₁ hseen => ?_
    refine (ih a₁.opened acc₁ (fun i hmem => hi i (List.mem_cons_of_mem _ hmem)) (fun hf hmem => ?_)
      (hpre.imp id fun hp i hmem => hp i (by simp [hmem]))).imp fun acc' b' log' _ hr =>
        ⟨hr.1, by simp [hr.2]⟩
    rcases hseen _ hmem with hold | ⟨t, ht⟩
    · exact hnew hf hold
    · rcases hpre with hnone | hne
      · rw [hnone] at hf
        cases hf
      · exact hne (other, o') (by simp) (RecordInfo.field?_inj ht hf)

theorem lowerRecord_tells (h : b.Opened) {record : String} {info : RecordInfo}
    (hinfo : env.tables.record? record = some info) {pre post : List (String × Operand)} {name : String}
    {o : Operand} (hi : ∀ i ∈ pre ++ (name, o) :: post, i.2.Sound env) (ho : o.Tells scope d)
    (hpre : info.field? name = none ∨ ∀ i ∈ pre, i.1 ≠ name) (span : Span) :
    (lowerRecord env record (pre ++ (name, o) :: post) span).Tells scope b d := by
  unfold lowerRecord
  rw [hinfo]
  refine Attempt.Tells.before (R := fun acc _ _ => acc.ok = false)
    (lowerInits_tells h info record {} hi ho (by simp) hpre) fun acc b₁ log a₁ hok => ?_
  refine Attempt.works_bind (reportMissing_works a₁.opened record span acc.seen _)
    fun _ b₂ _ a₂ _ => ?_
  rw [hok]
  exact Attempt.works_fail a₂.opened

end

/-! ### Expressions -/

/-- The names that the lowering of an expression looks up, with the spans of their uses. -/
inductive Reads (env : Env) (scope : Scope) : Expr → Span → String → Prop where
  | ident (span : Span) (name : String) : Reads env scope (.ident span name) span name
  | unary {s op e span name} : Reads env scope e span name → Reads env scope (.unary s op e) span name
  | left {s op l r span name} : Reads env scope l span name → Reads env scope (.binary s op l r) span name
  /-- The right operand of `and` or `or` takes a left one that is fine. -/
  | right {s op l r span name} : (op.isLogical = true → (operand env l).Accepted scope) →
      Reads env scope r span name → Reads env scope (.binary s op l r) span name
  /-- A conversion takes a type that is known. -/
  | cast {s e t target span name} : env.tables.resolve t = .ok target → Reads env scope e span name →
      Reads env scope (.cast s e t) span name
  | arg {s callee args e span name} : e ∈ args → Reads env scope e span name →
      Reads env scope (.call s callee args) span name
  | receiver {s r method args span name} : Reads env scope r span name →
      Reads env scope (.methodCall s r method args) span name
  | methodArg {s r method args e span name} : e ∈ args → Reads env scope e span name →
      Reads env scope (.methodCall s r method args) span name
  | field {s r field span name} : Reads env scope r span name →
      Reads env scope (.field s r field) span name
  | vector {s r i span name} : Reads env scope r span name → Reads env scope (.index s r i) span name
  | index {s r i span name} : Reads env scope i span name → Reads env scope (.index s r i) span name
  /-- An initialiser takes a record type that is known, and a field that has no value yet. -/
  | init {s record info pre field e post span name} : env.tables.record? record = some info →
      (info.field? field = none ∨ ∀ i ∈ pre, i.1 ≠ field) → Reads env scope e span name →
      Reads env scope (.record s record (pre ++ (field, e) :: post)) span name

theorem literalKind_unary_eq_none {s : Span} {op : UnaryOp} {e : Expr} (h : literalKind e = none) :
    literalKind (.unary s op e) = none := by
  cases op <;> simp [literalKind, h]

theorem literalKind_binary_eq_none {s : Span} {op : BinaryOp} {l r : Expr}
    (h : literalKind l = none ∨ literalKind r = none) : literalKind (.binary s op l r) = none := by
  simp only [literalKind]
  split
  · rcases h with h | h
    · simp [h]
    · cases literalKind l <;> simp [h]
  · rfl

section

variable {env : Env} {scope : Scope} {e : Expr} {span : Span} {name : String}

/-- A literal has no names in it. -/
theorem Reads.literalKind (h : Reads env scope e span name) : literalKind e = none := by
  induction h with
  | unary _ ih => exact literalKind_unary_eq_none ih
  | left _ ih => exact literalKind_binary_eq_none (.inl ih)
  | right _ _ ih => exact literalKind_binary_eq_none (.inr ih)
  | _ => rfl

theorem mem_operands {args : List Expr} (h : e ∈ args) : operand env e ∈ operands env args := by
  induction args with
  | nil => cases h
  | cons a rest ih =>
    rw [operands]
    rcases List.mem_cons.1 h with rfl | h
    · exact List.mem_cons_self
    · exact List.mem_cons_of_mem _ (ih h)

theorem initOperands_append (env : Env) (pre post : List (String × Expr)) :
    initOperands env (pre ++ post) = initOperands env pre ++ initOperands env post := by
  induction pre with
  | nil => rfl
  | cons i rest ih =>
    obtain ⟨name, e⟩ := i
    rw [List.cons_append, initOperands, initOperands, ih, List.cons_append]

theorem mem_of_mem_initOperands {inits : List (String × Expr)} {i : String × Operand}
    (h : i ∈ initOperands env inits) : (i.1, i.2.expr) ∈ inits := by
  have := List.mem_map_of_mem (f := fun i : String × Operand => (i.1, i.2.expr)) h
  rwa [initOperands_expr] at this

/-- Every name that an expression looks up and does not find is reported where it stands. -/
theorem Reads.tells (henv : env.Shaped) (h : Reads env scope e span name)
    (hn : scope.lookup? name = none) :
    (operand env e).Tells scope (Diagnostic.unknownIdentifier span name) := by
  have sound := fun e => operand_sound henv e
  induction h with
  | ident span name => exact fun {_} _ hb => lowerIdent_tells hb hn span
  | @unary s op e _ _ hread ih =>
    intro b expected hb
    show (lowerExpr env (.unary s op e) expected).Tells scope b _
    rw [lowerExpr, literalKind_unary_eq_none hread.literalKind]
    exact lowerUnary_tells hb op (ih hn) s expected
  | @left s op l r _ _ hread ih =>
    intro b expected hb
    show (lowerExpr env (.binary s op l r) expected).Tells scope b _
    rw [lowerExpr, literalKind_binary_eq_none (.inl hread.literalKind)]
    exact lowerBinary_tells_left hb op (ih hn) (sound r) hread.literalKind s
  | @right s op l r _ _ hacc hread ih =>
    intro b expected hb
    show (lowerExpr env (.binary s op l r) expected).Tells scope b _
    rw [lowerExpr, literalKind_binary_eq_none (.inr hread.literalKind)]
    exact lowerBinary_tells_right hb op (sound l) (ih hn) hread.literalKind hacc s
  | @cast s e t target _ _ ht _ ih => exact fun {_} _ hb => lowerCast_tells hb (ih hn) ht s
  | @arg s callee args e _ _ hmem _ ih =>
    exact fun {_} _ hb => lowerCall_tells hb callee (operands_sound henv args) (mem_operands hmem) (ih hn) s
  | @receiver s r method args _ _ _ ih =>
    exact fun {_} _ hb => lowerMethodCall_tells_receiver hb (ih hn) method (operands_sound henv args) s
  | @methodArg s r method args e _ _ hmem _ ih =>
    exact fun {_} _ hb => lowerMethodCall_tells_arg hb (sound r) method (operands_sound henv args)
      (mem_operands hmem) (ih hn) s
  | @field s r field _ _ _ ih => exact fun {_} _ hb => lowerField_tells hb (ih hn) field s
  | @vector s r i _ _ _ ih => exact fun {_} _ hb => lowerIndexing_tells_receiver hb (ih hn) (sound i) s
  | @index s r i _ _ _ ih => exact fun {_} _ hb => lowerIndexing_tells_index hb (sound r) (ih hn) s
  | @init s record info pre field e post _ _ hinfo hpre _ ih =>
    intro b expected hb
    have hsound := initOperands_sound henv (pre ++ (field, e) :: post)
    show (lowerRecord env record (initOperands env (pre ++ (field, e) :: post)) s).Tells scope b _
    rw [initOperands_append, initOperands] at hsound ⊢
    refine lowerRecord_tells hb hinfo hsound (ih hn) (hpre.imp id fun hp i hmem => ?_) s
    exact hp _ (mem_of_mem_initOperands hmem)

end

end BlockForge.Lowering
