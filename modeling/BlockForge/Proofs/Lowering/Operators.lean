import BlockForge.Lowering.Operators
import BlockForge.Proofs.Lowering.Sequence
import BlockForge.Proofs.Lowering.State

/-!
# Lowering operators

Every operator, on operands that lower well, goes on at a live position: with a value represented
like its type, or with an error reported. The merge of a short circuit has the block that branched
and the block where the right operand ended as its predecessors, whatever the right operand did.
-/

namespace BlockForge.Lowering

open Ir (BlockId Emit ValueId)
open Source (BinaryOp Expr Span UnaryOp)
open StateM
open BlockForge.Types (Layout LitKind LitType Ty)

/-! ### Constants -/

/-- A constant of the kind that values of a type have. -/
def Const.Suits (t : Ty) : Const → Prop
  | .int _ => t.isFloat = false
  | .float _ => t.isFloat = true

/-- A kind of literals that can take a type. -/
def LitSuits (kind : LitKind) (t : Ty) : Prop := kind = .float → t.isFloat = true

theorem locate_eq_ok {α : Type} {span : Span} {leaf : Bool} {r : Except FoldCause α} {a : α}
    (h : FoldError.locate span leaf r = .ok a) : r = .ok a := by
  cases r with
  | error e => cases h
  | ok b => exact congrArg _ (Except.ok.inj h)

theorem suits_fitConst {l : Layout} {t : Ty} {c d : Const} (h : fitConst l t c = .ok d)
    (hc : c.Suits t) : d.Suits t := by
  cases c with
  | float bits =>
    cases h
    exact hc
  | int v =>
    simp only [fitConst] at h
    split at h
    · split at h
      · cases h
      · cases h
        exact hc
    · cases h
      exact hc

theorem suits_intLeaf (t : Ty) (v : Int) : (intLeaf t v).Suits t := by
  unfold intLeaf
  split
  · assumption
  · rename_i h
    simpa [Const.Suits] using h

theorem suits_foldBinary {l : Layout} {t : Ty} {op : BinaryOp} {a b c : Const}
    (h : foldBinary l t op a b = .ok c) (ha : a.Suits t) : c.Suits t := by
  cases a <;> cases b <;> simp only [foldBinary] at h
  case int.int v w =>
    cases hr : foldInt l t op v w with
    | error e => simp [hr, Except.map] at h
    | ok r =>
      simp only [hr, Except.map, Except.ok.injEq] at h
      subst h
      exact ha
  case float.float v w =>
    cases hr : foldFloat op v w with
    | error e => simp [hr, Except.map] at h
    | ok r =>
      simp only [hr, Except.map, Except.ok.injEq] at h
      subst h
      exact ha
  all_goals cases h

/-- The kind of an operand of a literal expression. -/
theorem literalKind_unary {s : Span} {op : UnaryOp} {e : Expr} {kind : LitKind}
    (h : literalKind (.unary s op e) = some kind) :
    ∃ k, literalKind e = some k ∧ (k = .float ↔ kind = .float) := by
  cases op <;> simp only [literalKind] at h
  case neg =>
    obtain ⟨k, hk, rfl⟩ := Option.map_eq_some_iff.1 h
    exact ⟨k, hk, by cases k <;> simp⟩
  case plus => exact ⟨kind, h, Iff.rfl⟩
  all_goals cases h

theorem literalKind_binary {s : Span} {op : BinaryOp} {a b : Expr} {kind : LitKind}
    (h : literalKind (.binary s op a b) = some kind) :
    ∃ k, literalKind a = some k ∧ (k = .float ↔ kind = .float) := by
  simp only [literalKind] at h
  split at h
  · split at h
    · rename_i ka kb ha hb
      obtain ⟨u, hu, rfl⟩ := Option.map_eq_some_iff.1 h
      refine ⟨ka, ha, ?_⟩
      cases ka <;> cases kb <;> simp [LitKind.unify?] at hu <;> subst hu <;> simp
    · cases h
  · cases h

/-- A literal expression folds to a constant of the kind of its type. -/
theorem suits_evalConst {l : Layout} {t : Ty} {e : Expr} {kind : LitKind} {c : Const}
    (hk : literalKind e = some kind) (ht : LitSuits kind t) (h : evalConst l t e = .ok c) :
    c.Suits t := by
  fun_induction evalConst l t e generalizing kind c with
  | case1 s v => exact suits_fitConst (locate_eq_ok h) (suits_intLeaf t _)
  | case2 s bits =>
    cases hk
    exact suits_fitConst (locate_eq_ok h) (ht rfl)
  | case3 s span v => exact suits_fitConst (locate_eq_ok h) (suits_intLeaf t _)
  | case4 => cases h
  | case5 s op e _ d hd ih =>
    obtain ⟨k, hke, hiff⟩ := literalKind_unary hk
    have hsuit := ih hke (fun hf => ht (hiff.1 hf)) hd
    refine suits_fitConst (locate_eq_ok h) ?_
    split
    · cases d <;> exact hsuit
    · exact hsuit
  | case6 => cases h
  | case7 => cases h
  | case8 s op a b ca hca cb hcb iha ihb =>
    obtain ⟨k, hka, hiff⟩ := literalKind_binary hk
    have hsuit := iha hka (fun hf => ht (hiff.1 hf)) hca
    have hbind := locate_eq_ok h
    cases hr : foldBinary l t op ca cb with
    | error e => simp [hr, Except.bind] at hbind
    | ok r =>
      simp only [hr, Except.bind] at hbind
      exact suits_fitConst hbind (suits_foldBinary hr hsuit)
  | case9 => cases h

/-- The type that a literal takes: the expected one if that is numeric, but a float literal takes no
integer type; else the default one. -/
theorem literalType_eq (env : Env) (kind : LitKind) (expected : Option Ty) :
    literalType env kind expected = kind.defaultType ∨
      ∃ t, expected = some t ∧ t.isNumeric = true ∧ LitSuits kind t ∧
        literalType env kind expected = t := by
  cases expected with
  | none => exact .inl rfl
  | some t =>
    cases kind with
    | float =>
      cases t
      case float w => exact .inr ⟨_, rfl, rfl, fun _ => rfl, rfl⟩
      all_goals exact .inl rfl
    | int v =>
      cases t
      case float w => exact .inr ⟨_, rfl, rfl, fun _ => rfl, rfl⟩
      case signed w =>
        refine .inr ⟨_, rfl, rfl, nofun, ?_⟩
        simp only [literalType, LitType.bind, LitKind.bind, Layout.intRange?]
        split_ifs <;> rfl
      case unsigned w =>
        refine .inr ⟨_, rfl, rfl, nofun, ?_⟩
        simp only [literalType, LitType.bind, LitKind.bind, Layout.intRange?]
        split_ifs <;> rfl
      all_goals exact .inl rfl

theorem literalType_numeric (env : Env) (kind : LitKind) (expected : Option Ty) :
    (literalType env kind expected).isNumeric = true ∧
      LitSuits kind (literalType env kind expected) := by
  rcases literalType_eq env kind expected with h | ⟨t, -, hn, hs, h⟩
  · rw [h]
    cases kind
    · exact ⟨rfl, nofun⟩
    · exact ⟨rfl, fun _ => rfl⟩
  · rw [h]
    exact ⟨hn, hs⟩

/-! ### Literals -/

section

variable {env : Env} {s : State} (h : s.Live env)

include h

theorem emitConst_runs {t : Ty} {c : Const} (ht : t.isNumeric = true) (hc : c.Suits t) :
    (Lower.emit (emitConst env t c)).Runs s fun v s' => s'.builder.function.Has v (env.ir t) := by
  cases c with
  | int v =>
    have hi : t.isInteger = true := by simpa [Ty.isNumeric, show t.isFloat = false from hc] using ht
    exact Lower.emit_runs (Emit.constInt_onward h.live (Env.isInt_of_isInteger hi) _)
  | float bits =>
    exact Lower.emit_runs (Emit.constFloat_onward h.live ((Env.isFloat_ir t).trans hc) _)

omit h in
theorem isError_problem (e : FoldError) (type : String) : (e.problem type).isError = true := by
  unfold FoldError.problem
  cases e.cause <;> rfl

theorem lowerLiteral_runs {e : Expr} {kind : LitKind} (hk : literalKind e = some kind)
    (expected : Option Ty) : (lowerLiteral env e kind expected).Runs s (Typed.Fits env) := by
  obtain ⟨hn, hs⟩ := literalType_numeric env kind expected
  unfold lowerLiteral
  dsimp only
  split
  · rename_i c hc
    refine Attempt.Runs.bind (Attempt.lift_runs (emitConst_runs h hn (suits_evalConst hk hs hc)))
      fun v s' o hv => ?_
    exact Attempt.Runs.pure o.builder.live hv
  · exact Attempt.reject_runs h.live (isError_problem _ _)

/-! ### Operands -/

theorem lowerBoth_runs {left right : Operand} (hl : left.Ok env) (hr : right.Ok env)
    (expected : Option Ty) : (lowerBoth left right expected).Runs s fun p s' =>
      p.1.Fits env s' ∧ p.2.Fits env s' := by
  refine Attempt.Runs.bind (Attempt.lift_runs (hl expected h).run) fun l s₁ o₁ hl₁ => ?_
  have h₁ := h.onward o₁
  refine Attempt.Runs.bind (Attempt.lift_runs (hr expected h₁).run) fun r s₂ o₂ hr₂ => ?_
  have h₂ := h₁.onward o₂
  cases l with
  | none => exact Attempt.fail_runs h₂.live (o₂.failed hl₁)
  | some l =>
    cases r with
    | none => exact Attempt.fail_runs h₂.live hr₂
    | some r => exact Attempt.Runs.pure h₂.live ⟨Typed.Fits.onward o₂ hl₁, hr₂⟩

theorem lowerOperands_runs {left right : Operand} (hl : left.Ok env) (hr : right.Ok env)
    (op : BinaryOp) (span : Span) : (lowerOperands op left right span).Runs s fun p s' =>
      p.1.Fits env s' ∧ p.2.Fits env s' := by
  unfold lowerOperands
  split
  · split
    · exact lowerBoth_runs h hl hr _
    · exact Attempt.reject_runs h.live rfl
  · refine Attempt.Runs.bind (hr none h) fun r s₁ o₁ hr₁ => ?_
    refine Attempt.Runs.bind (hl _ (h.onward o₁)) fun l s₂ o₂ hl₂ => ?_
    exact Attempt.Runs.pure o₂.builder.live ⟨hl₂, Typed.Fits.onward o₂ hr₁⟩
  · refine Attempt.Runs.bind (hl none h) fun l s₁ o₁ hl₁ => ?_
    refine Attempt.Runs.bind (hr _ (h.onward o₁)) fun r s₂ o₂ hr₂ => ?_
    exact Attempt.Runs.pure o₂.builder.live ⟨Typed.Fits.onward o₂ hl₁, hr₂⟩
  · exact lowerBoth_runs h hl hr _

/-! ### Arithmetic, comparison and bitwise operators -/

variable {l r : Typed} (hl : l.Fits env s) (hr : r.Fits env s)

include hl hr

theorem lowerArithmetic_runs {op : BinaryOp} (hop : op.isArithmetic = true) (span : Span) :
    (lowerArithmetic env op l r span).Runs s (Typed.Fits env) := by
  unfold lowerArithmetic
  split
  · exact Attempt.reject_runs h.live rfl
  rename_i hn
  split
  · exact Attempt.reject_runs h.live rfl
  rename_i heq
  obtain ⟨hnl, -⟩ : l.ty.isNumeric = true ∧ r.ty.isNumeric = true := by simpa using hn
  have heq : l.ty = r.ty := by simpa using heq
  have hr' : s.builder.function.Has r.value (env.ir l.ty) := heq ▸ hr
  refine Attempt.get_bind ?_
  split
  · exact Attempt.reject_runs h.live rfl
  refine Attempt.Runs.bind (Attempt.emit_runs (emitArithmetic_gives h.live hop hl hr'
    (Env.isFloat_ir l.ty).symm (Env.numeric_ir hnl))) ?_
  rintro _ s₁ o₁ ⟨v, rfl, hv⟩
  exact Attempt.Runs.pure o₁.builder.live hv

omit hl hr in
theorem foldComparison?_runs {op : BinaryOp} {left right : Expr} {x : Attempt Typed}
    (hx : foldComparison? env op left right = some x) : x.Runs s (Typed.Fits env) := by
  unfold foldComparison? at hx
  obtain ⟨a, ha, hx⟩ := Option.bind_eq_some_iff.1 hx
  obtain ⟨b, hb, hx⟩ := Option.bind_eq_some_iff.1 hx
  obtain ⟨kind, hk, hx⟩ := Option.bind_eq_some_iff.1 hx
  dsimp only at hx
  split at hx
  · cases hx
    refine Attempt.Runs.bind (Attempt.emit_runs (Emit.constBool_onward h.live _)) ?_
    intro v s₁ o₁ hv
    exact Attempt.Runs.pure o₁.builder.live hv
  all_goals
    cases hx
    exact Attempt.reject_runs h.live (isError_problem _ _)

theorem lowerComparison_runs (op : BinaryOp) (span : Span) :
    (lowerComparison op l r span).Runs s (Typed.Fits env) := by
  unfold lowerComparison
  split
  · split
    · exact Attempt.reject_runs h.live rfl
    rename_i heq
    split
    · exact Attempt.reject_runs h.live rfl
    rename_i hord
    have heq : l.ty = r.ty := by simpa using heq
    have hn : (env.ir l.ty).isFloat = true ∨ (env.ir l.ty).isInt = true := by
      cases ht : l.ty <;> simp [ht, Ty.isOrdered] at hord
      case char => exact .inr rfl
      all_goals exact Env.numeric_ir rfl
    refine Attempt.Runs.bind (Attempt.emit_runs (emitOrdering_gives h.live hl (heq ▸ hr)
      (Env.isFloat_ir l.ty).symm hn)) fun v s₁ o₁ hv => ?_
    exact Attempt.Runs.pure o₁.builder.live hv
  · split
    · rename_i hcond
      have hir : env.ir r.ty = env.ir l.ty ∧ ((env.ir l.ty).isFloat = true ∨
          (env.ir l.ty).isInt = true ∨ env.ir l.ty = .ptr) := by
        simp only [nullAgainst, Bool.or_eq_true, Bool.and_eq_true, beq_iff_eq] at hcond
        rcases hcond with (⟨heq, heqt⟩ | ⟨hnull, hside⟩) | ⟨hnull, hside⟩
        · refine ⟨by rw [heq], ?_⟩
          cases ht : l.ty <;> simp [ht, Ty.isEquatable] at heqt
          case bool => exact .inr (.inl rfl)
          case char => exact .inr (.inl rfl)
          case signed => exact .inr (.inl (Env.isInt_of_isInteger rfl))
          case unsigned => exact .inr (.inl (Env.isInt_of_isInteger rfl))
          case float => exact .inl (Env.isFloat_ir _)
          all_goals exact .inr (.inr rfl)
        · rw [hnull]
          cases ht : r.ty <;> simp [ht, Ty.isNullable] at hside <;>
            exact ⟨rfl, .inr (.inr rfl)⟩
        · rw [hnull]
          cases ht : l.ty <;> simp [ht, Ty.isNullable] at hside <;>
            exact ⟨rfl, .inr (.inr rfl)⟩
      refine Attempt.Runs.bind (Attempt.emit_runs (emitEquality_gives h.live hl (hir.1 ▸ hr)
        (Env.isFloat_ir l.ty).symm hir.2)) fun v s₁ o₁ hv => ?_
      exact Attempt.Runs.pure o₁.builder.live hv
    · exact Attempt.reject_runs h.live rfl

theorem lowerBitwise_runs (op : BinaryOp) (span : Span) :
    (lowerBitwise env op l r span).Runs s (Typed.Fits env) := by
  unfold lowerBitwise
  split
  · split
    · rename_i hint
      obtain ⟨hil, hir⟩ : l.ty.isInteger = true ∧ r.ty.isInteger = true := by simpa using hint
      refine Attempt.Runs.bind (Attempt.emit_runs (emitShift_gives h.live hl hr
        (Env.isInt_of_isInteger hil) (Env.isInt_of_isInteger hir))) fun v s₁ o₁ hv => ?_
      exact Attempt.Runs.pure o₁.builder.live hv
    · exact Attempt.reject_runs h.live rfl
  · split
    · rename_i hcond
      simp only [Bool.and_eq_true, beq_iff_eq, Bool.or_eq_true] at hcond
      have hi : (env.ir l.ty).isInt = true := by
        rcases hcond.2 with hi | hb
        · exact Env.isInt_of_isInteger hi
        · rw [hb]
          rfl
      refine Attempt.Runs.bind (Attempt.emit_runs (emitBitwise_gives h.live hl (hcond.1 ▸ hr) hi))
        fun v s₁ o₁ hv => ?_
      exact Attempt.Runs.pure o₁.builder.live hv
    · exact Attempt.reject_runs h.live rfl

/-! ### Short circuits -/

omit hl hr in
theorem lowerBoolOperand_runs (op : BinaryOp) {o : Operand} (ho : o.Ok env) :
    (lowerBoolOperand op o).Runs s fun v s' => s'.builder.function.Has v .i1 := by
  refine Attempt.Runs.bind (ho _ h) fun v s₁ o₁ hv => ?_
  split
  · rename_i hb
    refine Attempt.Runs.pure o₁.builder.live ?_
    have : s₁.builder.function.Has v.value (env.ir v.ty) := hv
    rw [hb] at this
    exact this
  · exact Attempt.reject_runs o₁.builder.live rfl

omit hl hr in
theorem lowerShortCircuit_runs (op : BinaryOp) {left right : Operand} (hleft : left.Ok env)
    (hright : right.Ok env) : (lowerShortCircuit op left right).Runs s (Typed.Fits env) := by
  refine Attempt.Runs.bind (lowerBoolOperand_runs h op hleft) fun l s₁ o₁ hl₁ => ?_
  have h₁ := h.onward o₁
  obtain ⟨origin, horigin, hopen⟩ := h₁.live.isOpen
  refine Attempt.get_bind ?_
  rw [horigin]
  refine Attempt.of_some_bind (Attempt.runs_of_sat ?_)
  refine Attempt.emit_sat_bind (Emit.appendBlock_appended h₁.live _) fun rhs b₂ a₂ => ?_
  refine Attempt.emit_sat_bind (Emit.appendBlock_appended a₂.live _) fun merge b₃ a₃ => ?_
  have hl₃ : b₃.function.Has l .i1 := a₃.has (a₂.has hl₁)
  have branch : (if (op == .and) = true then Emit.condBr l rhs merge
      else Emit.condBr l merge rhs).Sat b₃ fun _ b₄ => ∃ t, Emit.Forked s₁.builder b₄ t rhs merge := by
    split
    · refine (Emit.condBr_fresh a₃.live hl₃ (a₂.fresh.ext a₃.ext) a₃.fresh).imp fun _ b₄ h₄ => ?_
      exact ⟨_, Emit.forked a₂ a₃ h₄ (.inl rfl)⟩
    · refine (Emit.condBr_fresh a₃.live hl₃ a₃.fresh (a₂.fresh.ext a₃.ext)).imp fun _ b₄ h₄ => ?_
      exact ⟨_, Emit.forked a₂ a₃ h₄ (.inr rfl)⟩
  refine Attempt.emit_sat_bind branch ?_
  rintro - b₄ ⟨t, fork⟩
  refine Attempt.emit_sat_bind fork.enterLeft ?_
  rintro - b₅ ⟨o₅, fresh₅, hb₅⟩
  have preds₅ : Emit.Preds b₅ merge [origin] := hb₅ ▸ fork.rightPreds horigin
  have h₅ := h₁.toOk.withBuilder o₅.live o₅.ext
  refine Attempt.lift_sat_bind (lowerBoolOperand_runs h₅ op hright).run ?_
  rintro r s₆ ⟨o₆, hr₆⟩
  refine Attempt.get_sat_bind (Attempt.get_sat_bind ?_)
  obtain ⟨exit, hexit, hopen₆⟩ := o₆.builder.live.isOpen
  have hterm : s₆.builder.currentTerminated = false := by
    simp [Ir.Builder.currentTerminated, hexit, Ir.Builder.hasTerminator_eq, hopen₆]
  simp only [hexit, hterm, Option.getD_some, Bool.not_false, if_true]
  have fresh₆ : Emit.Fresh s₆.builder merge := fresh₅.ext o₆.builder.ext
  have preds₆ : Emit.Preds s₆.builder merge [origin] :=
    preds₅.within o₆.builder.toWithin fresh₅.lt_size
  refine Attempt.emit_sat_bind (Emit.br_halted o₆.builder.live fresh₆.lt_size fresh₆.noPhi)
    fun _ b₇ h₇ => ?_
  have preds₇ : Emit.Preds b₇ merge [exit, origin] := by
    have := h₇.preds preds₆ hexit hopen₆
    simpa [Ir.Terminator.successors] using this
  have within₇ : Emit.Within s₁.builder b₇ :=
    h₇.within (o₅.toWithin.trans o₆.builder.toWithin)
      (by simpa [Ir.Terminator.successors] using fork.rightNew)
  have fresh₇ := fresh₆.ext h₇.ext
  refine Attempt.emit_sat_bind (Emit.positionAt_fresh h₇.ok within₇ fresh₇ fork.rightNew
    (fork.pathRight (hb₅ ▸ o₆.builder.ext.trans h₇.ext))) ?_
  rintro - b₈ ⟨o₈, hb₈⟩
  have onward₈ : ∀ {b : Ir.Builder}, Emit.Onward s₁.builder b →
      State.Onward s₁ { s₆ with builder := b } := fun o =>
    ⟨o, o₆.scope, o₆.loops, o₆.reach, fun hf => o₆.failed hf⟩
  cases r with
  | none => exact ⟨onward₈ o₈, hr₆⟩
  | some r =>
    refine Attempt.of_some_sat_bind ?_
    refine Attempt.emit_sat_bind ((Emit.constBool_onward o₈.live _).and
      (Emit.pushValue_declared o₈.live _ _ _)) ?_
    rintro short b₉ ⟨⟨o₉, hshort⟩, decl⟩
    have hcur : b₉.current = some merge := by rw [decl.current, hb₈]
    obtain ⟨val, hfun⟩ : ∃ val, b₉.function = b₇.function.addValue val :=
      ⟨_, by rw [decl.function, hb₈]; rfl⟩
    have hlt : origin.index < rhs.index := by
      rw [a₂.isNext]
      exact Emit.lt_size_of_ending h₁.live horigin
    have hne : exit ≠ origin := by
      rintro rfl
      rcases o₆.builder.ext.current with hc | ⟨c, hc, hle⟩
      · rw [hexit, show ({ s₁ with builder := b₅ } : State).builder.current = some rhs by
          rw [hb₅]] at hc
        cases hc
        exact Nat.lt_irrefl _ hlt
      · rw [hexit] at hc
        cases hc
        have hold := Emit.lt_size_of_ending h₁.live horigin
        exact Nat.lt_irrefl _ (Nat.lt_of_lt_of_le (Nat.lt_of_lt_of_le hold o₅.ext.grows.size) hle)
    have hentry : merge ≠ Ir.Id.entry := by
      rintro rfl
      have := fork.rightNew
      have := Emit.lt_size_of_ending h₁.live horigin
      simp only [Ir.Id.entry] at *
      omega
    have hr₉ : b₉.function.Has r .i1 := by
      rw [hfun]
      exact (Ir.Function.grows_addValue _ _).has (h₇.ext.has hr₆)
    refine Attempt.emit_sat_bind (Emit.phi_onward o₉.live hcur hentry (by rw [hfun]; exact fresh₇.empty)
      rfl (by simp [hshort, hr₉]) (by simpa using hne.symm) ?_) ?_
    · intro j
      have hp := preds₇ j
      rw [hfun]
      show _ ↔ merge ∈ b₇.function.succs j
      rw [hp]
      simp [or_comm]
    · rintro v b₁₀ ⟨live₁₀, hv, hwithin, hgrows, hcur₁₀, -⟩
      have within₁₀ := hwithin _ (o₈.trans o₉).toWithin fork.rightNew
      refine ⟨onward₈ ⟨within₁₀, live₁₀, ?_⟩, hv⟩
      intro c d hc hd
      rw [hcur₁₀] at hd
      cases hd
      exact hgrows.path ((o₈.trans o₉).path hc hcur)

/-! ### Dispatch -/

omit hl hr in
theorem lowerBinary_runs (op : BinaryOp) {left right : Operand} (hleft : left.Ok env)
    (hright : right.Ok env) (span : Span) :
    (lowerBinary env op left right span).Runs s (Typed.Fits env) := by
  unfold lowerBinary
  split
  · exact lowerShortCircuit_runs h op hleft hright
  · split
    · rename_i x hx
      split at hx
      · exact foldComparison?_runs h hx
      · cases hx
    · refine Attempt.Runs.bind (lowerOperands_runs h hleft hright op span) fun p s₁ o₁ hp => ?_
      have h₁ := h.onward o₁
      dsimp only
      split
      · rename_i hop
        exact lowerArithmetic_runs h₁ hp.1 hp.2 hop span
      · split
        · exact lowerComparison_runs h₁ hp.1 hp.2 op span
        · exact lowerBitwise_runs h₁ hp.1 hp.2 op span

omit hl hr in
theorem lowerUnary_runs (op : UnaryOp) {o : Operand} (ho : o.Ok env) (span : Span)
    (expected : Option Ty) : (lowerUnary op o span expected).Runs s (Typed.Fits env) := by
  refine Attempt.Runs.bind (ho _ h) fun v s₁ o₁ hv => ?_
  have h₁ := h.onward o₁
  cases op with
  | plus =>
    dsimp only
    split
    · exact Attempt.Runs.pure h₁.live hv
    · exact Attempt.reject_runs h₁.live rfl
  | neg =>
    dsimp only
    split
    · rename_i hf
      refine Attempt.Runs.bind (Attempt.emit_runs (Emit.fneg_onward h₁.live hv
        ((Env.isFloat_ir v.ty).trans hf))) fun r s₂ o₂ hr => ?_
      exact Attempt.Runs.pure o₂.builder.live hr
    · split
      · rename_i hi
        refine Attempt.Runs.bind (Attempt.emit_runs (Emit.neg_onward h₁.live hv
          (Env.isInt_of_isInteger hi))) fun r s₂ o₂ hr => ?_
        exact Attempt.Runs.pure o₂.builder.live hr
      · exact Attempt.reject_runs h₁.live rfl
  | not =>
    dsimp only
    split
    · rename_i hb
      refine Attempt.Runs.bind (Attempt.emit_runs (Emit.not_onward h₁.live hv
        (by rw [hb]; rfl))) fun r s₂ o₂ hr => ?_
      exact Attempt.Runs.pure o₂.builder.live hr
    · exact Attempt.reject_runs h₁.live rfl
  | bitNot =>
    dsimp only
    split
    · rename_i hi
      refine Attempt.Runs.bind (Attempt.emit_runs (Emit.not_onward h₁.live hv
        (Env.isInt_of_isInteger hi))) fun r s₂ o₂ hr => ?_
      exact Attempt.Runs.pure o₂.builder.live hr
    · exact Attempt.reject_runs h₁.live rfl

end

end BlockForge.Lowering
