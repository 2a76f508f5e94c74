import BlockForge.Proofs.Lowering.Definitions
import BlockForge.Proofs.Lowering.Lookups

/-!
# Undefined names in programs

`Evaluates` follows the lowering of a body from statement to statement and says which expressions it lowers
in which scope: all those of every statement that is not dead, but for the parts of a target that nothing
can be assigned to. A name that one of them looks up and does not find is in the output.
-/

namespace BlockForge.Diagnostic

theorem Queue.hasKey_add {q : Queue} {k : Key} (d : Diag) (h : q.hasKey k = true) :
    (q.add d).2.hasKey k = true := by
  unfold Queue.add
  split
  · exact h
  · simp only [Queue.hasKey, List.contains_iff_mem] at h ⊢
    exact List.mem_cons_of_mem _ h

theorem Queue.hasKey_add_self (q : Queue) (d : Diag) : (q.add d).2.hasKey d.key = true := by
  unfold Queue.add
  split
  · rename_i h
    exact h
  · simp [Queue.hasKey]

theorem Queue.hasKey_submit {q : Queue} {k : Key} (log : List Diag) (h : q.hasKey k = true) :
    (q.submit log).hasKey k = true := by
  induction log generalizing q with
  | nil => exact h
  | cons d rest ih => exact ih (hasKey_add d h)

theorem Queue.hasKey_submit_of_mem (q : Queue) {log : List Diag} {d : Diag} (h : d ∈ log) :
    (q.submit log).hasKey d.key = true := by
  induction log generalizing q with
  | nil => cases h
  | cons e rest ih =>
    rcases List.mem_cons.1 h with rfl | h
    · exact hasKey_submit rest (hasKey_add_self q d)
    · exact ih (q.add e).2 h

end BlockForge.Diagnostic

namespace BlockForge.Lowering

open Diagnostic (Diag Queue)
open Ir (BlockId Builder Emit Module)
open Ir.Emit
open Source (Chain Expr FunctionDef Program Span Stmt TypeExpr completesAll)
open Lower (Matches Moves)
open BlockForge.Types (Ty)

/-! ### What is reported in a state -/

namespace Lower

variable {α β : Type} {s : State} {d : Diag}

/-- From `s` on, `d` is reported. -/
def Reports (x : Lower α) (s : State) (d : Diag) : Prop := (x s).2.diags.hasKey d.key = true

/-- What has been reported in `s` stays reported. -/
def Keeps (x : Lower α) (s : State) : Prop :=
  ∀ k, s.diags.hasKey k = true → (x s).2.diags.hasKey k = true

theorem Reports.bind {x : Lower α} {f : α → Lower β} (h : x.Reports s d)
    (k : (f (x s).1).Keeps (x s).2) : (x >>= f).Reports s d := k _ h

theorem reports_bind {x : Lower α} {f : α → Lower β} (k : (f (x s).1).Reports (x s).2 d) :
    (x >>= f).Reports s d := k

theorem Keeps.bind {x : Lower α} {f : α → Lower β} (h : x.Keeps s) (k : (f (x s).1).Keeps (x s).2) :
    (x >>= f).Keeps s := fun key hk => k key (h key hk)

theorem Keeps.pure (a : α) : (Pure.pure a : Lower α).Keeps s := fun _ hk => hk

theorem keeps_emit (e : Emit α) : (emit e).Keeps s := fun _ hk => hk

theorem keeps_report (d : Diag) : (report d).Keeps s := fun _ hk => Queue.hasKey_add d hk

theorem keeps_onScope (f : Scope → Scope) : (onScope f).Keeps s := fun _ hk => hk

theorem keeps_loops (f : List LoopTargets → List LoopTargets) :
    (modify fun s => { s with loops := f s.loops } : Lower Unit).Keeps s := fun _ hk => hk

theorem positionIsDead_diags (s : State) : (positionIsDead s).2.diags = s.diags := by
  cases hc : s.builder.current with
  | none => simp only [positionIsDead, Bind.bind, StateT.bind, get, getThe, MonadStateOf.get, StateT.get,
      Pure.pure, StateT.pure, hc]
  | some block =>
    simp only [positionIsDead, Bind.bind, StateT.bind, get, getThe, MonadStateOf.get, StateT.get,
      Pure.pure, hc]
    split
    · rfl
    · split <;> rfl

theorem keeps_positionIsDead : positionIsDead.Keeps s := fun key hk => by
  rw [positionIsDead_diags]
  exact hk

theorem keeps_branchIfLive (target : BlockId) : (branchIfLive target).Keeps s := by
  refine Keeps.bind keeps_positionIsDead ?_
  split
  · exact keeps_emit _
  · exact .pure _

theorem Matches.keeps {x y : Lower α} {a : α} {s' : State} {log : List Diag}
    (h : x.Matches y s a s' log) (hr : s.reach.Exact s.builder) : x.Keeps s := by
  obtain ⟨reach, heq, -⟩ := h.cached s.diags s.reach hr
  intro key hk
  rw [show x s = _ from heq]
  exact Queue.hasKey_submit log hk

theorem Moves.keeps {x : Lower α} {a : α} {s' : State} {log : List Diag} (h : x.Moves s a s' log) :
    x.Keeps s := by
  intro key hk
  rw [show x s = _ from h s.diags s.reach]
  exact Queue.hasKey_submit log hk

/-- What is submitted from the scope and the builder of a state is reported there. -/
theorem Works.reports {x : Lower α} (h : x.Works s.scope s.builder fun _ _ log => d ∈ log) :
    x.Reports s d := by
  obtain ⟨a, b, log, hy, -, -, hd⟩ := h
  rw [Reports, hy s rfl rfl]
  exact Queue.hasKey_submit_of_mem _ hd

end Lower

open Lower (Keeps Reports)

theorem Attempt.Tells.reports {α : Type} {x : Attempt α} {s : State} {d : Diag}
    (h : x.Tells s.scope s.builder d) : x.run.Reports s d :=
  Lower.Works.reports (h.imp fun _ _ _ _ hd => hd.2)

/-! ### Straight statements -/

section

variable {env : Env} {s : State} {d : Diag}

theorem keeps_bindValue (env : Env) (name : String) (v : Option Typed) (span : Span) :
    (bindValue env name v span).Keeps s := by
  have hbind : ∀ {s : State} (b : Binding), (Lower.bind "variable" name b span).Keeps s := by
    intro s b
    obtain ⟨scope, log, hm, -⟩ := bind_moves s "variable" name b span
    exact hm.keeps
  cases v with
  | none => exact hbind .poisoned
  | some v => exact Keeps.bind (Lower.keeps_emit _) (Keeps.bind (Lower.keeps_emit _) (hbind _))

theorem lowerVar_reports (h : s.builder.Opened) (name : String) (declared : Option TypeExpr) {o : Operand}
    (ho : o.Tells s.scope d) (span : Span) : (lowerVar env name declared o span).Reports s d := by
  cases declared with
  | none => exact Reports.bind (Attempt.Tells.reports (ho none h).bind) (keeps_bindValue env name _ span)
  | some t =>
    unfold lowerVar
    dsimp only
    cases ht : env.tables.resolve t with
    | ok target =>
      have hresolve : Attempt.resolve env t span = pure target := by
        unfold Attempt.resolve
        rw [ht]
      rw [hresolve]
      refine Lower.reports_bind (x := (pure target : Attempt Ty).run) ?_
      exact Reports.bind (Attempt.Tells.reports (lowerAs_tells h ho target _))
        (keeps_bindValue env name _ span)
    | error unknown =>
      have hresolve : Attempt.resolve env t span = .reject (Problem.unknownType span unknown) := by
        unfold Attempt.resolve
        rw [ht]
      rw [hresolve]
      refine Lower.reports_bind (x := (Attempt.reject (Problem.unknownType span unknown)).run) ?_
      let s₁ : State := { s with diags := (s.diags.add (Problem.unknownType span unknown)).2 }
      have hvisit : o.visit.Reports s₁ d := Lower.Works.reports (visit_tells h ho)
      exact Reports.bind hvisit (keeps_bindValue env name _ span)

theorem lowerLocalAssign_tells (h : s.builder.Opened) (name : String) (span : Span) {o : Operand}
    (ho : o.Tells s.scope d) :
    (lowerLocalAssign name span o).run.Works s.scope s.builder fun _ _ log => d ∈ log := by
  refine Attempt.traces_get_bind (fun _ => rfl) ?_
  dsimp only [State.plain]
  have hvisit : ∀ {b : Builder}, b.Opened →
      (liftM o.visit : Attempt Unit).run.Works s.scope b fun _ _ log => d ∈ log :=
    fun h => Lower.Traces.map (visit_tells h ho)
  split
  · exact Lower.Works.imp (lowerAs_tells h ho _ _).bind fun _ _ _ _ hd => hd.2
  · exact hvisit h
  · refine Attempt.works_bind (Lower.works_report h rfl) fun _ b₁ _ a₁ _ => ?_
    exact (hvisit a₁.opened).imp fun _ _ _ _ hd => by simp [hd]

/-- An unknown name is reported where it is assigned to. -/
theorem lowerLocalAssign_unknown (h : s.builder.Opened) {name : String}
    (hn : s.scope.lookup? name = none) (span : Span) {o : Operand} (ho : o.Sound env) :
    (lowerLocalAssign name span o).run.Works s.scope s.builder
      fun _ _ log => Diagnostic.unknownIdentifier span name ∈ log := by
  refine Attempt.traces_get_bind (fun _ => rfl) ?_
  dsimp only [State.plain]
  rw [hn]
  refine Attempt.works_bind (Lower.works_report h rfl) ?_
  rintro - b₁ _ a₁ ⟨rfl, -⟩
  exact Lower.Traces.map ((visit_works a₁.opened ho).imp fun _ _ _ _ _ => by simp)

theorem lowerFieldAssign_tells_receiver (h : s.builder.Opened) {r o : Operand} (hr : r.Tells s.scope d)
    (name : String) (ho : o.Sound env) (span : Span) :
    (lowerFieldAssign env r name o span).run.Works s.scope s.builder fun _ _ log => d ∈ log := by
  have haddr : (fieldAddress env r name span).Tells s.scope s.builder d := (hr none h).bind
  refine Attempt.works_bind haddr ?_
  rintro _ b₁ log a₁ ⟨rfl, hd⟩
  exact Lower.Traces.map ((visit_works a₁.opened ho).imp fun _ _ _ _ _ => by simp [hd])

theorem lowerFieldAssign_tells_value (h : s.builder.Opened) {r o : Operand} (hr : r.Sound env)
    (name : String) (ho : o.Tells s.scope d) (span : Span) :
    (lowerFieldAssign env r name o span).run.Works s.scope s.builder fun _ _ log => d ∈ log := by
  refine Attempt.works_bind (fieldAddress_judged h hr name span).run fun p b₁ log a₁ _ => ?_
  cases p with
  | none => exact Lower.Traces.map ((visit_tells a₁.opened ho).imp fun _ _ _ _ hd => by simp [hd])
  | some p =>
    exact Lower.Works.imp (lowerAs_tells a₁.opened ho _ _).bind fun _ _ _ _ hd => by simp [hd.2]

theorem lowerIndexAssign_tells_receiver (h : s.builder.Opened) {r i o : Operand}
    (hr : r.Tells s.scope d) (hi : i.Sound env) (ho : o.Sound env) (span : Span) :
    (lowerIndexAssign env r i o span).run.Works s.scope s.builder fun _ _ log => d ∈ log := by
  have hboth : ∀ o' ∈ [i, o], o'.Sound env := by simp [hi, ho]
  refine Attempt.works_bind (hr none h) ?_
  rintro _ b₁ log a₁ ⟨rfl, hd⟩
  refine Attempt.works_bind (visitAll_works a₁.opened hboth) fun _ b₂ log₂ a₂ _ => ?_
  exact Lower.Works.pure a₂.opened (by simp [hd])

theorem lowerIndexAssign_tells_operand (h : s.builder.Opened) {r i o : Operand} (hr : r.Sound env)
    (hi : i.Sound env) (ho : o.Sound env) {arg : Operand} (hmem : arg ∈ [i, o])
    (harg : arg.Tells s.scope d) (span : Span) :
    (lowerIndexAssign env r i o span).run.Works s.scope s.builder fun _ _ log => d ∈ log := by
  have hboth : ∀ o' ∈ [i, o], o'.Sound env := by simp [hi, ho]
  have hvisit : ∀ {b : Builder}, b.Opened →
      (liftM (visitAll [i, o]) >>= fun _ => Attempt.fail : Attempt Unit).run.Works s.scope b
        fun _ _ log => d ∈ log := fun h => by
    refine Attempt.works_bind (visitAll_tells h hboth hmem harg) fun _ b₂ log₂ a₂ hd => ?_
    exact Lower.Works.pure a₂.opened (by simp [hd])
  refine Attempt.works_bind (hr.judged none h).run fun recv b₁ log a₁ _ => ?_
  cases recv with
  | none => exact (hvisit a₁.opened).imp fun _ _ _ _ hd => by simp [hd]
  | some recv =>
    dsimp only
    split
    · refine Attempt.works_bind (Lower.works_report a₁.opened rfl) fun _ b₂ _ a₂ _ => ?_
      exact (hvisit a₂.opened).imp fun _ _ _ _ hd => by simp [hd]
    · rename_i elem _
      exact Lower.Works.imp (lowerIndexAndElement_tells a₁.opened hi ho hmem harg elem _).bind
        fun _ _ _ _ hd => by simp [hd.2]

theorem lowerAssign_tells_value (henv : env.Shaped) (h : s.builder.Opened) (target : Expr) {o : Operand}
    (hs : o.Sound env) (ho : o.Tells s.scope d) (span : Span) :
    (lowerAssign env target o span).run.Works s.scope s.builder fun _ _ log => d ∈ log := by
  unfold lowerAssign
  split
  · exact lowerLocalAssign_tells h _ _ ho
  · exact lowerFieldAssign_tells_value h (operand_sound henv _) _ ho span
  · exact lowerIndexAssign_tells_operand h (operand_sound henv _) (operand_sound henv _) hs
      (by simp) ho span
  · refine Attempt.works_bind (Lower.works_report h rfl) fun _ b₁ _ a₁ _ => ?_
    exact Lower.Traces.map ((visit_tells a₁.opened ho).imp fun _ _ _ _ hd => by simp [hd])

theorem lowerCondition_tells {scope : Scope} {b : Builder} (h : b.Opened) {o : Operand}
    (ho : o.Tells scope d) (what : String) :
    (lowerCondition o what).Works scope b fun _ _ log => d ∈ log := by
  refine Lower.Works.bind (ho (some .bool) h) ?_
  rintro _ b₁ log a₁ ⟨rfl, hd⟩
  exact (Lower.works_emit a₁.opened (constBool_inline _).isAdvance).imp fun _ _ _ _ _ => by simp [hd]

theorem lowerReturn_reports (h : s.builder.Opened) {o : Operand} (ho : o.Tells s.scope d) (span : Span) :
    (lowerReturn env (some o) span).Reports s d := by
  refine Reports.bind (Attempt.Tells.reports (lowerAs_tells h ho _ _)) ?_
  split
  · exact Lower.keeps_emit _
  · exact Lower.keeps_emit _

end

/-! ### Loops and clauses -/

/-- A loop up to its body. -/
def openLoop (env : Env) (cond : Expr) : Lower LoopTargets := do
  let test ← Lower.emit (Emit.appendBlock "while.cond")
  let start ← Lower.emit (Emit.appendBlock "while.body")
  let stop ← Lower.emit (Emit.appendBlock "while.end")
  Lower.emit (Emit.br test)
  Lower.emit (Emit.positionAt test)
  let c ← lowerCondition (operand env cond) "condition of `while`"
  Lower.emit (Emit.condBr c start stop)
  Lower.emit (Emit.positionAt start)
  modify fun s => { s with loops := ⟨test, stop⟩ :: s.loops }
  Lower.onScope Scope.push
  pure ⟨test, stop⟩

/-- What follows the body of a loop. -/
def closeLoop (targets : LoopTargets) : Lower Unit := do
  Lower.onScope Scope.pop
  modify fun s => { s with loops := s.loops.tail }
  Lower.branchIfLive targets.test
  Lower.emit (Emit.positionAt targets.stop)

theorem lowerStmt_loop (env : Env) (span : Span) (cond : Expr) (body : List Stmt) :
    lowerStmt env (.loop span cond body) = (do
      let targets ← openLoop env cond
      lowerStmts env body
      closeLoop targets) := rfl

/-- A clause up to its body; the result is where control goes if the test fails. -/
def openClause (env : Env) (stop : BlockId) (cond : Expr) (rest : Chain) : Lower BlockId := do
  let c ← lowerCondition (operand env cond) "condition of `if`"
  let start ← Lower.emit (Emit.appendBlock "if.then")
  let next ← Lower.emit (nextBlock stop rest)
  Lower.emit (Emit.condBr c start next)
  Lower.emit (Emit.positionAt start)
  Lower.onScope Scope.push
  pure next

/-- What follows the body of a clause. -/
def closeClause (stop next : BlockId) : Lower Unit := do
  Lower.onScope Scope.pop
  Lower.branchIfLive stop
  if next ≠ stop then Lower.emit (Emit.positionAt next)

/-- A clause with its body. -/
def lowerClause (env : Env) (stop : BlockId) (cond : Expr) (body : List Stmt) (rest : Chain) :
    Lower Unit := do
  let next ← openClause env stop cond rest
  lowerStmts env body
  closeClause stop next

theorem lowerChain_clause (env : Env) (stop : BlockId) (cond : Expr) (body : List Stmt) (rest : Chain) :
    lowerChain env stop (.clause cond body rest) = (do
      lowerClause env stop cond body rest
      lowerChain env stop rest) := by
  simp only [lowerChain, lowerClause, openClause, closeClause, bind_assoc, pure_bind]
  refine bind_congr fun c => bind_congr fun start => bind_congr fun next => bind_congr fun _ => ?_
  refine bind_congr fun _ => bind_congr fun _ => bind_congr fun _ => bind_congr fun _ => ?_
  refine bind_congr fun _ => ?_
  split <;> rfl

/-! ### Evaluated expressions -/

/-- A part of a body. -/
inductive Piece where
  | stmt (st : Stmt)
  | list (body : List Stmt)
  | chain (stop : BlockId) (rest : Chain)

def Piece.lower (env : Env) : Piece → Lower Unit
  | .stmt st => lowerStmt env st
  | .list body => lowerStmts env body
  | .chain stop rest => lowerChain env stop rest

/-- Lowering a part of a body from a state lowers an expression in a scope. -/
inductive Evaluates (env : Env) : Piece → State → Expr → Scope → Prop where
  /-- A statement that is not dead. -/
  | first {st rest s e scope} : (Lower.positionIsDead s).1 = false →
      Evaluates env (.stmt st) { (Lower.positionIsDead s).2 with deadReported := false } e scope →
      Evaluates env (.list (st :: rest)) s e scope
  | later {st rest s e scope} : Evaluates env (.list rest) (lowerStmts env [st] s).2 e scope →
      Evaluates env (.list (st :: rest)) s e scope
  | init {span name declared e s} : Evaluates env (.stmt (.var span name declared e)) s e s.scope
  | target {span span' name value s} :
      Evaluates env (.stmt (.assign span (.ident span' name) value)) s (.ident span' name) s.scope
  | object {span span' e name value s} :
      Evaluates env (.stmt (.assign span (.field span' e name) value)) s e s.scope
  | vector {span span' e i value s} :
      Evaluates env (.stmt (.assign span (.index span' e i) value)) s e s.scope
  | index {span span' r e value s} :
      Evaluates env (.stmt (.assign span (.index span' r e) value)) s e s.scope
  | value {span target e s} : Evaluates env (.stmt (.assign span target e)) s e s.scope
  | expr {span e s} : Evaluates env (.stmt (.expr span e)) s e s.scope
  | ret {span e s} : Evaluates env (.stmt (.ret span (some e))) s e s.scope
  | block {span body s e scope} : Evaluates env (.list body) { s with scope := s.scope.push } e scope →
      Evaluates env (.stmt (.block span body)) s e scope
  | loopTest {span e body s} : Evaluates env (.stmt (.loop span e body)) s e s.scope
  | loopBody {span cond body s e scope} : Evaluates env (.list body) (openLoop env cond s).2 e scope →
      Evaluates env (.stmt (.loop span cond body)) s e scope
  | cond {span chain s e scope} :
      Evaluates env (.chain (Emit.appendBlock "if.end" s.builder).1 chain)
        { s with builder := (Emit.appendBlock "if.end" s.builder).2 } e scope →
      Evaluates env (.stmt (.cond span chain)) s e scope
  | otherwise {stop body s e scope} :
      Evaluates env (.list body) { s with scope := s.scope.push } e scope →
      Evaluates env (.chain stop (.otherwise body)) s e scope
  | clauseTest {stop e body rest s} : Evaluates env (.chain stop (.clause e body rest)) s e s.scope
  | clauseBody {stop cond body rest s e scope} :
      Evaluates env (.list body) (openClause env stop cond rest s).2 e scope →
      Evaluates env (.chain stop (.clause cond body rest)) s e scope
  | clauseRest {stop cond body rest s e scope} :
      Evaluates env (.chain stop rest) (lowerClause env stop cond body rest s).2 e scope →
      Evaluates env (.chain stop (.clause cond body rest)) s e scope

/-- A state in which a part of a body may be lowered. -/
structure State.Grounded (s : State) : Prop extends s.Sane where
  exact : s.reach.Exact s.builder

/-- A state in which what is left of an `if` may be lowered. -/
structure State.Forked (s : State) (stop : BlockId) : Prop extends s.Grounded where
  reached : s.builder.Reached
  waits : s.Waits stop

/-- A state in which the part is lowered. -/
def Piece.Fits : Piece → State → Prop
  | .stmt _, s => s.Grounded ∧ s.builder.Reached
  | .list _, s => s.Grounded
  | .chain stop rest, s => rest.isDone = false → s.Forked stop

section

variable {env : Env} {s : State}

theorem State.Grounded.opened (h : s.Grounded) (hr : s.builder.Reached) : s.builder.Opened :=
  h.placed.opened hr

theorem State.Grounded.push (h : s.Grounded) : State.Grounded { s with scope := s.scope.push } :=
  ⟨⟨h.placed, h.loops⟩, h.exact⟩

theorem Lower.Matches.steady {x y : Lower Unit} {s' : State} {log : List Diag}
    (h : x.Matches y s () s' log) (hs : s.Grounded) (hs' : s'.Sane) : (x s).2.Grounded := by
  obtain ⟨reach, heq, hexact⟩ := h.cached s.diags s.reach hs.exact
  rw [show x s = _ from heq]
  exact ⟨⟨hs'.placed, hs'.loops⟩, hexact⟩

theorem lowerStmts_grounded (henv : env.Shaped) (hs : s.Grounded) (body : List Stmt) :
    (lowerStmts env body s).2.Grounded ∧ (lowerStmts env body).Keeps s := by
  obtain ⟨live, hl⟩ : ∃ live : Bool, s.builder.Reached ↔ live = true := by
    by_cases h : s.builder.Reached
    · exact ⟨true, by simpa using h⟩
    · exact ⟨false, by simpa using h⟩
  obtain ⟨s', log, hm, hp, -⟩ := list_paths henv body s live hs.toSane hl
  exact ⟨hm.steady hs (hs.toSane.passes hp), hm.keeps hs.exact⟩

theorem lowerStmt_grounded (henv : env.Shaped) (hs : s.Grounded) (hr : s.builder.Reached) (st : Stmt) :
    (lowerStmt env st s).2.Grounded ∧ (lowerStmt env st).Keeps s := by
  obtain ⟨s', log, hm, hp, -⟩ := stmt_paths henv st s hs.toSane hr
  exact ⟨hm.steady hs (hs.toSane.passes hp), hm.keeps hs.exact⟩

theorem lowerChain_keeps (henv : env.Shaped) {stop : BlockId} {rest : Chain}
    (hs : rest.isDone = false → s.Forked stop) : (lowerChain env stop rest).Keeps s := by
  cases hd : rest.isDone with
  | true =>
    cases rest with
    | done => exact .pure ()
    | otherwise _ => cases hd
    | clause _ _ _ => cases hd
  | false =>
    have h := hs hd
    obtain ⟨s', log, hm, -⟩ := chain_paths henv rest s stop hd h.toSane h.reached h.waits
    exact hm.keeps h.exact

/-! ### Loops -/

/-- The exits of a loop lead to blocks that control gets to. -/
theorem Tested.sane {b : Builder} {test start stop : BlockId} (hs : s.Sane)
    (ht : Tested s.builder b test start stop) (scope : Scope) :
    State.Sane { s with builder := b, loops := ⟨test, stop⟩ :: s.loops, scope } := by
  have hb := ht.builds (C := True) (E := True)
  refine ⟨hb.placed hs.placed, ?_⟩
  rintro i ⟨t, hmem, hi⟩
  rcases List.mem_cons.1 hmem with rfl | hmem
  · rcases hi with rfl | rfl
    · exact ⟨ht.lt.1, ht.paths.1⟩
    · exact ⟨ht.lt.2, ht.paths.2⟩
  · obtain ⟨hlt, hp⟩ := hs.loops i ⟨t, hmem, hi⟩
    exact ⟨Nat.lt_of_lt_of_le hlt hb.size, hb.path hp⟩

theorem openLoop_grounded (henv : env.Shaped) (hs : s.Grounded) (hr : s.builder.Reached) (cond : Expr) :
    (openLoop env cond s).2.Grounded := by
  obtain ⟨b, test, start, stop, log, -, ht, -, hm⟩ :=
    loop_test hs.toSane hr (operand_sound henv cond) "condition of `while`"
  let f : BlockId → BlockId → Lower Unit := fun test stop => do
    modify fun s => { s with loops := ⟨test, stop⟩ :: s.loops }
    Lower.onScope Scope.push
  have hf : (f test stop).Matches (f test stop) { s with builder := b } ()
      { s with builder := b, loops := ⟨test, stop⟩ :: s.loops, scope := s.scope.push } ([] ++ []) :=
    (Lower.matches_modify (f := fun s => { s with loops := ⟨test, stop⟩ :: s.loops })
      (fun _ _ => rfl) rfl).bind (matches_onScope Scope.push)
  exact (hm hf).steady hs (ht.sane hs.toSane s.scope.push)

/-- The test of a loop is lowered in a block of its own. -/
theorem openLoop_reports (hs : s.Grounded) (hr : s.builder.Reached) {cond : Expr} {d : Diag}
    (ho : (operand env cond).Tells s.scope d) : (openLoop env cond).Reports s d := by
  obtain ⟨test, start, stop, b₁, b₂, b₃, b₄, ht, hst, hsp, hbr, -, -, -, -, hi₁, -, -, hsize₄, hpath₄,
    hopen₄, hb₄⟩ := loop_blocks hs.toSane hr
  have hlt₄ : test.index < b₄.function.blocks.size := by omega
  have hb₅ : Builds (fun _ => False) (fun i => i = test ∨ i = start ∨ i = stop) True True
      s.builder { b₄ with current := some test } := hb₄.moved (by omega) hlt₄
  have hr₅ : ({ b₄ with current := some test } : Builder).Reached :=
    ⟨test, rfl, hopen₄ test (by omega), hpath₄⟩
  have hopen := (hb₅.placed hs.placed).opened hr₅
  have hpos := positionAt_eq hlt₄
  have heq : openLoop env cond s = (do
      let c ← lowerCondition (operand env cond) "condition of `while`"
      Lower.emit (Emit.condBr c start stop)
      Lower.emit (Emit.positionAt start)
      modify fun s => { s with loops := ⟨test, stop⟩ :: s.loops }
      Lower.onScope Scope.push
      pure ⟨test, stop⟩ : Lower LoopTargets) { s with builder := { b₄ with current := some test } } := by
    simp only [openLoop, Bind.bind, StateT.bind, Lower.emit, ht, hst, hsp, hbr, hpos]
  rw [Reports, heq]
  refine Reports.bind (s := { s with builder := { b₄ with current := some test } })
    (Lower.Works.reports (lowerCondition_tells hopen ho _)) ?_
  refine Keeps.bind (Lower.keeps_emit _) (Keeps.bind (Lower.keeps_emit _) ?_)
  exact Keeps.bind (Lower.keeps_loops _) (Keeps.bind (Lower.keeps_onScope _) (.pure _))

theorem closeLoop_keeps (targets : LoopTargets) : (closeLoop targets).Keeps s :=
  Keeps.bind (Lower.keeps_onScope _) (Keeps.bind (Lower.keeps_loops List.tail)
    (Keeps.bind (Lower.keeps_branchIfLive _) (Lower.keeps_emit _)))

/-! ### Branches -/

/-- The blocks that a chain is made of, from its first test on. -/
theorem forked_of_cond (hs : s.Grounded) (hr : s.builder.Reached) :
    State.Forked { s with builder := (Emit.appendBlock "if.end" s.builder).2 }
      (Emit.appendBlock "if.end" s.builder).1 := by
  obtain ⟨stop, b, heq, hi, hm⟩ : ∃ stop b, Emit.appendBlock "if.end" s.builder = (stop, b) ∧
      stop.index = s.builder.function.blocks.size ∧ Makes 1 s.builder b :=
    ⟨_, _, rfl, appendBlock_makes hs.placed.valid "if.end"⟩
  rw [heq]
  have hsize := hm.size
  have hlt : stop.index < b.function.blocks.size := by omega
  refine ⟨⟨hs.toSane.builds (hm.builds (C := True) (E := True)) rfl, hs.exact.spreads hm.spreads⟩,
    hm.reached hr, hlt, ?_, fun hc => ?_, fun ht => ?_⟩
  · show b.function.ending stop = none
    rw [hm.ending]
    exact Ir.Function.ending_eq_none (by omega)
  · obtain ⟨c, hc', hlt⟩ := hs.placed.position
    obtain rfl : stop = c := Option.some.inj (hc.symm.trans (hm.current.trans hc'))
    omega
  · have := (hs.loops stop ht).1
    omega

theorem openClause_grounded (henv : env.Shaped) {stop : BlockId} (hs : s.Forked stop) (cond : Expr)
    (rest : Chain) : (openClause env stop cond rest s).2.Grounded := by
  obtain ⟨b, start, next, log, -, -, -, -, hb, -, -, hm⟩ :=
    clause_test hs.toSane hs.reached hs.waits (operand_sound henv cond) rest "condition of `if`"
  have hsane : State.Sane { s with builder := b, scope := s.scope.push } :=
    hs.toSane.builds (hb (C := True) (E := True)) rfl
  have hf : (Lower.onScope Scope.push).Matches (Lower.onScope Scope.push) { s with builder := b } ()
      { s with builder := b, scope := s.scope.push } [] := matches_onScope Scope.push
  exact (hm (f := fun _ => Lower.onScope Scope.push) (g := fun _ => Lower.onScope Scope.push) hf).steady
    hs.toGrounded hsane

theorem openClause_reports {stop : BlockId} (hs : s.Forked stop) {cond : Expr} (rest : Chain) {d : Diag}
    (ho : (operand env cond).Tells s.scope d) : (openClause env stop cond rest).Reports s d := by
  refine Reports.bind (Lower.Works.reports (lowerCondition_tells (hs.opened hs.reached) ho _)) ?_
  refine Keeps.bind (Lower.keeps_emit _) (Keeps.bind (Lower.keeps_emit _) ?_)
  refine Keeps.bind (Lower.keeps_emit _) (Keeps.bind (Lower.keeps_emit _) ?_)
  exact Keeps.bind (Lower.keeps_onScope _) (.pure _)

theorem closeClause_keeps (stop next : BlockId) : (closeClause stop next).Keeps s := by
  refine Keeps.bind (Lower.keeps_onScope _) (Keeps.bind (Lower.keeps_branchIfLive _) ?_)
  split
  · exact Lower.keeps_emit _
  · exact .pure _

/-- After a clause with its body, control is at the next test. -/
theorem lowerClause_forked (henv : env.Shaped) {stop : BlockId} (hs : s.Forked stop) (cond : Expr)
    (body : List Stmt) {rest : Chain} (hd : rest.isDone = false) :
    (lowerClause env stop cond body rest s).2.Forked stop := by
  obtain ⟨b₁, start, next, log₁, -, hr₁, hc₁, hnext₁, hb₁, hcase, -, hm₁⟩ :=
    clause_test hs.toSane hs.reached hs.waits (operand_sound henv cond) rest "condition of `if`"
  have hb₁' := hb₁ (C := True) (E := False)
  have hs₁ : State.Sane { s with builder := b₁ } := hs.toSane.builds hb₁' rfl
  have hw₁ : State.Waits { s with builder := b₁ } stop := hs.waits.builds hb₁' rfl
  obtain ⟨s₂, log₂, hf₂, -, t, hm₂, hbranch⟩ := body_forks (list_paths henv body) hs₁ hr₁ hw₁
  have hw₂ := hw₁.builds hf₂.builds hf₂.loops
  obtain ⟨hdone, -⟩ | ⟨-, hne, -, hlt, hopen, hstart⟩ := hcase
  · rw [hd] at hdone
    cases hdone
  have hlt₂ : next.index < s₂.builder.function.blocks.size := Nat.lt_of_lt_of_le hlt hf₂.builds.size
  have haway : b₁.current ≠ some next := fun he => hstart (Option.some.inj (he.symm.trans hc₁))
  have hopen₂ : s₂.builder.function.ending next = none := (hf₂.builds.keep hlt haway).trans hopen
  have hs₂ : s₂.Sane := hs₁.builds hf₂.builds hf₂.loops
  have hmatch := hm₁ (f := fun next => Lower.inScope (lowerStmts env body) (do
      Lower.branchIfLive stop
      if next ≠ stop then Lower.emit (Emit.positionAt next)))
    (g := fun next => Lower.inScope (followStmts env s.inLoop true body) (do
      Lower.branchIf (completesAll s.inLoop body) stop
      if next ≠ stop then Lower.emit (Emit.positionAt next))) (hm₂ (hbranch.bind (by
        rw [if_pos hne]
        exact Lower.matches_positionAt hlt₂)))
  obtain ⟨reach, heq, hexact⟩ := hmatch.cached s.diags s.reach hs.exact
  have hrun : lowerClause env stop cond body rest s = _ := heq
  rw [hrun]
  refine ⟨⟨⟨⟨hs₂.placed.valid, hs₂.placed.entry, ⟨next, rfl, hlt₂⟩, hs₂.placed.bounded⟩, hs₂.loops⟩, hexact⟩,
    ⟨next, rfl, hopen₂, hf₂.builds.path hnext₁⟩, ⟨hw₂.lt, hw₂.ending, ?_, hw₂.free⟩⟩
  exact fun he => hne (Option.some.inj he)

/-! ### Every part of a body -/

theorem lowerStmts_first {st : Stmt} {rest : List Stmt} (h : (Lower.positionIsDead s).1 = false) :
    lowerStmts env (st :: rest) s = (do
      lowerStmt env st
      lowerStmts env rest : Lower Unit) { (Lower.positionIsDead s).2 with deadReported := false } := by
  rw [lowerStmts]
  simp only [Bind.bind, StateT.bind]
  cases hd : Lower.positionIsDead s with
  | mk dead s₁ =>
    obtain rfl : dead = false := by rw [← h, hd]
    rfl

theorem lowerStmts_later (st : Stmt) (rest : List Stmt) :
    lowerStmts env (st :: rest) = (do
      lowerStmts env [st]
      lowerStmts env rest) := by
  simp only [lowerStmts, bind_assoc]
  refine bind_congr fun dead => ?_
  cases dead <;> rfl

/-- What a live position looks like to the lowering. -/
theorem State.Grounded.live (h : s.Grounded) (st : Stmt) (hl : (Lower.positionIsDead s).1 = false) :
    Piece.Fits (.stmt st) { (Lower.positionIsDead s).2 with deadReported := false } := by
  obtain ⟨dead, reach, heq, hexact, hdead⟩ := positionIsDead_exact h.placed h.exact
  rw [heq] at hl ⊢
  exact ⟨⟨⟨h.placed, h.loops⟩, hexact⟩, hdead.1 hl⟩

/-- A name that an evaluated expression looks up and does not find is reported. -/
theorem Evaluates.reports (henv : env.Shaped) {piece : Piece} {e : Expr} {scope : Scope} {span : Span}
    {name : String} (h : Evaluates env piece s e scope) (hs : piece.Fits s)
    (hread : Reads env scope e span name) (hn : scope.lookup? name = none) :
    (piece.lower env).Reports s (Diagnostic.unknownIdentifier span name) := by
  have sound := fun e => operand_sound henv e
  induction h with
  | @first st rest s e scope hl _ ih =>
    have hfit : Piece.Fits (.stmt st) _ := State.Grounded.live hs st hl
    show (lowerStmts env (st :: rest)).Reports s _
    rw [Reports, lowerStmts_first hl]
    exact Reports.bind (ih hfit hread hn)
      (lowerStmts_grounded henv (lowerStmt_grounded henv hfit.1 hfit.2 st).1 rest).2
  | @later st rest s e scope _ ih =>
    show (lowerStmts env (st :: rest)).Reports s _
    rw [lowerStmts_later]
    exact Lower.reports_bind (ih (lowerStmts_grounded henv hs [st]).1 hread hn)
  | init => exact lowerVar_reports (hs.1.opened hs.2) _ _ (hread.tells henv hn) _
  | @target _ span' name' value s =>
    cases hread
    exact Reports.bind (Lower.Works.reports
      (lowerLocalAssign_unknown (hs.1.opened hs.2) hn span (sound value))) (.pure _)
  | @object _ _ e field value s =>
    exact Reports.bind (Lower.Works.reports
      (lowerFieldAssign_tells_receiver (hs.1.opened hs.2) (hread.tells henv hn) field (sound value) _)) (.pure _)
  | @vector _ _ e i value s =>
    exact Reports.bind (Lower.Works.reports (lowerIndexAssign_tells_receiver (hs.1.opened hs.2)
      (hread.tells henv hn) (sound i) (sound value) _)) (.pure _)
  | @index _ _ r e value s =>
    exact Reports.bind (Lower.Works.reports (lowerIndexAssign_tells_operand (hs.1.opened hs.2)
      (sound r) (sound e) (sound value) (List.mem_cons_self ..) (hread.tells henv hn) _)) (.pure _)
  | @value _ target e s =>
    exact Reports.bind (Lower.Works.reports (lowerAssign_tells_value henv (hs.1.opened hs.2) target
      (sound e) (hread.tells henv hn) _)) (.pure _)
  | expr => exact Lower.Works.reports (visit_tells (hs.1.opened hs.2) (hread.tells henv hn))
  | @ret span' e s => exact lowerReturn_reports (hs.1.opened hs.2) (hread.tells henv hn) span'
  | @block _ body s e scope _ ih =>
    exact Lower.reports_bind (Reports.bind (ih hs.1.push hread hn) (Lower.keeps_onScope _))
  | @loopTest _ e body s =>
    show (lowerStmt env _).Reports s _
    rw [lowerStmt_loop]
    exact Reports.bind (openLoop_reports hs.1 hs.2 (hread.tells henv hn)) (Keeps.bind
      (lowerStmts_grounded henv (openLoop_grounded henv hs.1 hs.2 e) body).2 (closeLoop_keeps _))
  | @loopBody _ cond body s e scope _ ih =>
    show (lowerStmt env _).Reports s _
    rw [lowerStmt_loop]
    exact Lower.reports_bind (Reports.bind (ih (openLoop_grounded henv hs.1 hs.2 cond) hread hn)
      (closeLoop_keeps _))
  | @cond _ chain s e scope _ ih =>
    exact Lower.reports_bind (Reports.bind (ih (fun _ => forked_of_cond hs.1 hs.2) hread hn)
      (Lower.keeps_emit _))
  | @otherwise stop body s e scope _ ih =>
    exact Lower.reports_bind (Reports.bind (ih (hs rfl).toGrounded.push hread hn)
      (Keeps.bind (Lower.keeps_onScope _) (Lower.keeps_branchIfLive _)))
  | @clauseTest stop e body rest s =>
    have hf := hs rfl
    show (lowerChain env stop _).Reports s _
    rw [lowerChain_clause]
    have hclause : (lowerClause env stop e body rest).Reports s _ :=
      Reports.bind (openClause_reports hf rest (hread.tells henv hn)) (Keeps.bind
        (lowerStmts_grounded henv (openClause_grounded henv hf e rest) body).2 (closeClause_keeps _ _))
    exact hclause.bind (lowerChain_keeps henv fun hd => lowerClause_forked henv hf e body hd)
  | @clauseBody stop cond body rest s e scope _ ih =>
    have hf := hs rfl
    show (lowerChain env stop _).Reports s _
    rw [lowerChain_clause]
    have hclause : (lowerClause env stop cond body rest).Reports s _ :=
      Lower.reports_bind (Reports.bind (ih (openClause_grounded henv hf cond rest) hread hn)
        (closeClause_keeps _ _))
    exact hclause.bind (lowerChain_keeps henv fun hd => lowerClause_forked henv hf cond body hd)
  | @clauseRest stop cond body rest s e scope _ ih =>
    show (lowerChain env stop _).Reports s _
    rw [lowerChain_clause]
    exact Lower.reports_bind (ih (fun hd => lowerClause_forked henv (hs rfl) cond body hd) hread hn)

end

/-! ### Programs -/

section

variable {config : Config} {allocator : Allocator} {p : Program}

/-- The state in which the body of the definition at a position starts. -/
def bodyStart (config : Config) (allocator : Allocator) (p : Program) (position : Nat) (d : FunctionDef)
    (sig : Signature) : State :=
  let acc := lowerFirst config allocator p position
  (enterFunction (definitionEnv config allocator (Collection.ofProgram config p).tables d sig) d sig
    ⟨.start acc.1 sig.func, acc.2, {}, [], false, {}⟩).2

theorem enterFunction_grounded {env : Env} {m : Module} (d : FunctionDef) {sig : Signature} {name : String}
    {params : List Ir.Ty} {ret : Ir.Ty} (hf : m.function? sig.func = some (.declare name params ret))
    (q : Queue) : (enterFunction env d sig ⟨.start m sig.func, q, {}, [], false, {}⟩).2.Grounded := by
  obtain ⟨entry, b₁, b₂, he, hp, hin⟩ := entry_enters hf
  let s₁ : State := ⟨b₂, q, Scope.push {}, [], false, {}⟩
  have hs₁ : s₁.Grounded :=
    ⟨⟨hin.placed, by rintro i ⟨t, ht, -⟩; cases ht⟩, by simp [s₁, ReachCache.Exact]⟩
  have heq : enterFunction env d sig ⟨.start m sig.func, q, {}, [], false, {}⟩ =
      bindParams env 0 (parameters d sig) s₁ := by
    simp only [enterFunction, Bind.bind, StateT.bind, Lower.emit, he, hp]
    rfl
  obtain ⟨s₂, log, hm, hpass, -⟩ := bindParams_passes env hs₁.toSane hin.reached 0 (parameters d sig)
  rw [heq]
  exact (hm.same hpass.builds.toSpreads).steady hs₁ (hs₁.toSane.passes hpass)

theorem endBody_keeps {env : Env} {s : State} (span : Span) : (Lower.endBody env span).Keeps s := by
  refine Keeps.bind Lower.keeps_positionIsDead ?_
  split
  · split
    · exact Lower.keeps_emit _
    · exact Keeps.bind (Lower.keeps_report _) (Lower.keeps_emit _)
  · exact .pure _

/-- What is reported in a body is in the reports of its definition. -/
theorem definitionState_reports {position : Nat} {d : FunctionDef} {sig : Signature} {e : Diag}
    (h : (lowerStmts (definitionEnv config allocator (Collection.ofProgram config p).tables d sig)
      d.body).Reports (bodyStart config allocator p position d sig) e) :
    (definitionState config allocator p position d sig).diags.hasKey e.key = true := by
  let env := definitionEnv config allocator (Collection.ofProgram config p).tables d sig
  let acc := lowerFirst config allocator p position
  have hbody : (lowerFunction env d sig).Reports
      ⟨.start acc.1 sig.func, acc.2, {}, [], false, {}⟩ e := by
    rw [lowerFunction_eq, lowerUnsealed]
    refine Reports.bind (Lower.reports_bind (Reports.bind h (endBody_keeps _))) ?_
    exact Keeps.bind (Keeps.bind (x := get) (fun _ hk => hk) (Lower.keeps_emit _)) (Lower.keeps_onScope _)
  exact hbody

/-- What is reported stays reported while more definitions are lowered. -/
theorem lowerFirst_hasKey (config : Config) (ha : allocator.IsInline) {n k : Nat} (hnk : n ≤ k)
    (hk : k ≤ p.functions.length) {key : Diagnostic.Key}
    (h : (lowerFirst config allocator p n).2.hasKey key = true) :
    (lowerFirst config allocator p k).2.hasKey key = true := by
  induction hnk with
  | refl => exact h
  | @step k hle ih =>
    have hlt : k < p.functions.length := hk
    have hbefore := ih (Nat.le_of_lt hlt)
    have hready := lowerFirst_ready config ha (Nat.le_of_lt hlt) (p := p)
    rw [lowerFirst_succ config allocator hlt]
    rcases lowerDefinition_cases config allocator (lowerFirst config allocator p k)
      (List.getElem?_eq_getElem hlt) with ⟨sig, hd, heq⟩ | ⟨-, heq⟩
    · obtain ⟨s, log, -, -, hq⟩ := hready.body (Collection.ofProgram_fits config p) ha hd
      obtain ⟨reach, hs⟩ := (hq (lowerFirst config allocator p k).2).1
      rw [heq, hs]
      exact Queue.hasKey_submit log hbefore
    · rw [heq]
      exact hbefore

theorem addEntryWrapper_hasKey (config : Config) (p : Program) (tables : Tables) (acc : Module × Queue)
    {key : Diagnostic.Key} (h : acc.2.hasKey key = true) :
    (addEntryWrapper config p tables acc).2.hasKey key = true := by
  unfold addEntryWrapper
  dsimp only
  split
  · exact h
  · split
    · exact h
    · split
      · exact Queue.hasKey_add _ h
      · split
        · exact Queue.hasKey_add _ h
        · exact h

/-- What is reported for a definition is in the output. -/
theorem hasKey_output (ha : allocator.IsInline) {position : Nat} {d : FunctionDef} {sig : Signature}
    (hd : Declares p (Collection.ofProgram config p).tables position d sig) {key : Diagnostic.Key}
    (h : (definitionState config allocator p position d sig).diags.hasKey key = true) :
    ∃ e ∈ (lowerProgram config allocator p).diagnostics, e.key = key := by
  have hlt : position < p.functions.length := (List.getElem?_eq_some_iff.1 hd.1).1
  have hget : p.functions[position] = d := (List.getElem?_eq_some_iff.1 hd.1).2
  have hnext : (lowerFirst config allocator p (position + 1)).2.hasKey key = true := by
    rw [lowerFirst_succ config allocator hlt, hget]
    rcases lowerDefinition_cases config allocator (lowerFirst config allocator p position) hd.1 with
      ⟨sig', hd', heq⟩ | ⟨hno, -⟩
    · obtain rfl : sig = sig' := Option.some.inj (hd.2.1.symm.trans hd'.2.1)
      rw [heq]
      exact h
    · exact absurd hd (hno sig)
  have hlast := addEntryWrapper_hasKey config p (Collection.ofProgram config p).tables _
    (lowerFirst_hasKey config ha hlt (Nat.le_refl _) hnext)
  obtain ⟨e, he, hkey⟩ := Diagnostic.Queue.hasKey_iff.1 hlast
  rw [lowerProgram_eq]
  exact ⟨e, (List.mergeSort_perm ..).mem_iff.2 (Array.mem_toList_iff.2 he), hkey⟩

/-- Undefined names are reported in one run. If an expression of a statement that is not dead looks up a
name, however deep inside of it and whatever else is wrong there, and the name is not in scope, then the
output has an error at the place of that use. -/
theorem undefined_names_are_reported (ha : allocator.IsInline) {position : Nat} {d : FunctionDef}
    {sig : Signature} (hd : Declares p (Collection.ofProgram config p).tables position d sig) {e : Expr}
    {scope : Scope} {span : Span} {name : String}
    (he : Evaluates (definitionEnv config allocator (Collection.ofProgram config p).tables d sig)
      (.list d.body) (bodyStart config allocator p position d sig) e scope)
    (hread : Reads (definitionEnv config allocator (Collection.ofProgram config p).tables d sig) scope e
      span name) (hn : scope.lookup? name = none) :
    ∃ problem ∈ (lowerProgram config allocator p).diagnostics,
      problem.code = .e2003 ∧ problem.primarySpan? = some span := by
  have hc := Collection.ofProgram_fits config p
  have hlt : position < p.functions.length := (List.getElem?_eq_some_iff.1 hd.1).1
  have hready := lowerFirst_ready config ha (Nat.le_of_lt hlt) (p := p)
  have hmem := mem_of_lookup hd.2.1
  obtain ⟨symbol, hf⟩ := hc.functions _ hmem
  rw [← hready.todo _ hmem (Nat.le_of_eq hd.2.2.symm)] at hf
  have hreports := he.reports (definitionEnv_shaped hc ha d sig) (enterFunction_grounded d hf _) hread hn
  obtain ⟨problem, hmem, hkey⟩ := hasKey_output ha hd (definitionState_reports hreports)
  refine ⟨problem, hmem, ?_, ?_⟩
  · exact congrArg Diagnostic.Key.code hkey
  · exact congrArg Diagnostic.Key.span hkey

/-- A body that does something to two names, neither of them defined. -/
def undefinedPair (op : Source.BinaryOp) : Program where
  structs := []
  functions := [{
    symbol := "f", receiver := none, params := [], returnType := .unit
    body := [.expr ⟨6, 7⟩ (.binary ⟨4, 5⟩ op (.ident ⟨0, 1⟩ "a") (.ident ⟨2, 3⟩ "b"))]
    span := ⟨8, 9⟩ }]

theorem undefined_names_are_reported_sum :
    ∃ problem ∈ (lowerProgram {} .collector (undefinedPair .add)).diagnostics,
      problem.code = .e2003 ∧ problem.primarySpan? = some ⟨2, 3⟩ := by
  have hread : ∀ {env scope}, Reads env scope
      (.binary ⟨4, 5⟩ .add (.ident ⟨0, 1⟩ "a") (.ident ⟨2, 3⟩ "b")) ⟨2, 3⟩ "b" :=
    .right (by simp [Source.BinaryOp.isLogical]) (.ident _ _)
  exact undefined_names_are_reported collector_inline
    (⟨rfl, rfl, rfl⟩ : Declares (undefinedPair .add) _ 0 _ _) (.first rfl .expr) hread rfl

/-- The right operand of `and` is not looked at, since the left one has failed. -/
theorem undefinedPair_and_reports_one : (∃ d sig scope,
      Declares (undefinedPair .and) (Collection.ofProgram {} (undefinedPair .and)).tables 0 d sig ∧
      Evaluates (definitionEnv {} .collector (Collection.ofProgram {} (undefinedPair .and)).tables d sig)
        (.list d.body) (bodyStart {} .collector (undefinedPair .and) 0 d sig)
        (.binary ⟨4, 5⟩ .and (.ident ⟨0, 1⟩ "a") (.ident ⟨2, 3⟩ "b")) scope ∧
      scope.lookup? "b" = none) ∧
    (lowerProgram {} .collector (undefinedPair .and)).diagnostics =
      [Diagnostic.unknownIdentifier ⟨0, 1⟩ "a"] :=
  ⟨⟨_, _, _, ⟨rfl, rfl, rfl⟩, .first rfl .expr, rfl⟩, by decide +kernel⟩

end

end BlockForge.Lowering
