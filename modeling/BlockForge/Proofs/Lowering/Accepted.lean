import BlockForge.Proofs.Lowering.Definitions

/-!
# Accepted programs

No expression is dropped without a word: where lowering one fails, an error has been reported, then or when
a name that it mentions was declared. So in a program without errors every expression of every live
statement has its value, and every definition is lowered by the rules.
-/

namespace BlockForge.Lowering

open Diagnostic (Diag Queue)
open Ir (BlockId Builder Emit)
open Ir.Emit
open Source (Expr FunctionDef Program Span Stmt)
open BlockForge.Types (Ty)

/-- In the middle of a live statement: the position is open, and a declaration in scope that failed has been
reported. -/
structure State.Active (env : Env) (s : State) : Prop where
  opened : s.builder.Opened
  honest : Clean env s.scope ∨ s.Failed

/-- Between statements: the block graph is in order, and a declaration in scope that failed has been
reported. -/
structure State.Steady (env : Env) (s : State) : Prop extends State.Sane s where
  exact : s.reach.Exact s.builder
  honest : Clean env s.scope ∨ s.Failed

section

variable {env : Env} {s s' : State} {log : List Diag}

theorem State.failed_submit (q : Queue) (log : List Diag) (hq : s.diags = q.submit log) :
    s.Failed ↔ hasError q = true ∨ log.any (·.isError) = true := by
  rw [State.Failed, hq, any_isError_submit, Bool.or_eq_true]
  exact Iff.rfl

/-- A failure in scope has been reported before, or on the way. -/
theorem Passes.honest {completes proper : Bool} {visits : List Source.Visit}
    (h : Passes env completes proper visits s s' log) (hs : Clean env s.scope ∨ hasError s.diags = true) :
    Clean env s'.scope ∨ hasError (s.diags.submit log) = true := by
  rw [hasError_submit, Bool.or_eq_true]
  rcases hs with hs | hs
  · by_cases hlog : log.any (·.isError) = true
    · exact .inr (.inr hlog)
    · refine .inl (h.clean ⟨hs, fun d hd => ?_⟩)
      by_contra hne
      exact hlog (List.any_eq_true.2 ⟨d, hd, by simpa using hne⟩)
  · exact .inr (.inl hs)

theorem State.Steady.active (h : s.Steady env) (hr : s.builder.Reached) : s.Active env :=
  ⟨h.placed.opened hr, h.honest⟩

/-- An expression has a value and nothing is submitted, or something is that says what went wrong. Whatever the
queue holds, the same is submitted: a report may be in it already, and the queue alone would not tell. -/
theorem lowerExpr_reports (henv : env.Shaped) (h : s.Active env) (e : Expr) (expected : Option Ty) :
    ∃ r b log, (∀ q : Queue, (lowerExpr env e expected).run { s with diags := q } =
        (r, { s with builder := b, diags := q.submit log })) ∧
      ({ s with builder := b, diags := s.diags.submit log } : State).Active env ∧
      (∀ v, r = some v → log = [] ∧ Lowers env s.scope e expected s.builder v b) ∧
      (r = none → log.any (·.isError) = true ∨ Blamed env s.scope e ∧ s.Failed) := by
  obtain ⟨r, b, log, hy, hp, ha, hv⟩ := ((operand_sound henv e).judged expected h.opened).run
  refine ⟨r, b, log, fun q => hy { s with diags := q } rfl rfl, ⟨ha.opened, h.honest.imp id fun hf => ?_⟩, ?_, ?_⟩
  · exact (State.failed_submit s.diags log rfl).2 (.inl hf)
  · rintro v rfl
    exact hv
  · rintro rfl
    refine hv.imp hp.any_isError.2 fun hb => ⟨hb, ?_⟩
    exact h.honest.resolve_left fun hc => hc.not_blamed e hb

/-- A live statement leads from such a state to such a state. -/
theorem lowerStmt_steady (henv : env.Shaped) (h : s.Steady env) (hr : s.builder.Reached) (st : Stmt) :
    (lowerStmt env st s).2.Steady env := by
  obtain ⟨s', log, hm, hp, -⟩ := stmt_paths henv st s h.toSane hr
  obtain ⟨reach, heq, hexact⟩ := hm.cached s.diags s.reach h.exact
  rw [show lowerStmt env st s = _ from heq]
  have hs' := h.toSane.passes hp
  exact ⟨⟨hs'.placed, hs'.loops⟩, hexact, hp.honest h.honest⟩

theorem enterFunction_steady {m : Ir.Module} (d : FunctionDef) {sig : Signature} {name : String}
    {params : List Ir.Ty} {ret : Ir.Ty} (hf : m.function? sig.func = some (.declare name params ret))
    {q : Queue} (hq : env.tables.poisoned = [] ∨ hasError q = true) :
    (enterFunction env d sig ⟨.start m sig.func, q, {}, [], false, {}⟩).2.Steady env ∧
      (enterFunction env d sig ⟨.start m sig.func, q, {}, [], false, {}⟩).2.builder.Reached := by
  obtain ⟨entry, b₁, b₂, he, hp, hin⟩ := entry_enters hf
  let s₁ : State := ⟨b₂, q, Scope.push {}, [], false, {}⟩
  have hs₁ : s₁.Sane := ⟨hin.placed, by rintro i ⟨t, ht, -⟩; cases ht⟩
  obtain ⟨s₂, log, hm, hpass, -⟩ := bindParams_passes env hs₁ hin.reached 0 (parameters d sig)
  have heq : enterFunction env d sig ⟨.start m sig.func, q, {}, [], false, {}⟩ =
      ((), { s₂ with diags := q.submit log, reach := {} }) := by
    have hbegin : enterFunction env d sig ⟨.start m sig.func, q, {}, [], false, {}⟩ =
        bindParams env 0 (parameters d sig) s₁ := by
      simp only [enterFunction, bind, StateT.bind, Lower.emit, he, hp]
      rfl
    exact hbegin.trans (hm q {})
  have hclean : Clean env s₁.scope ∨ hasError s₁.diags = true :=
    hq.imp (fun h => ⟨by simp [s₁, Scope.push], h⟩) id
  have hs₂ := hs₁.passes hpass
  rw [heq]
  exact ⟨⟨⟨hs₂.placed, hs₂.loops⟩, by simp [ReachCache.Exact], hpass.honest hclean⟩, hpass.live.2 rfl⟩

end

section

variable {config : Config} {allocator : Allocator} {p : Program}

/-- While a definition is lowered, an expression has a value and nothing is submitted, or there is an error to
explain it: one submitted meanwhile, or an earlier one for a declaration that the expression mentions. What is
submitted is the same for every queue. A definition of a program without errors is lowered by the rules, none of
which leaves anything out. -/
theorem lowering_drops_nothing (ha : allocator.IsInline) {position : Nat} {d : FunctionDef}
    {sig : Signature} (hd : Declares p (Collection.ofProgram config p).tables position d sig) :
    let env := definitionEnv config allocator (Collection.ofProgram config p).tables d sig
    let acc := lowerFirst config allocator p position
    let start : State := ⟨.start acc.1 sig.func, acc.2, {}, [], false, {}⟩
    (∀ (s : State) (e : Expr) (expected : Option Ty), s.Active env → ∃ r b log,
      (∀ q : Queue, (lowerExpr env e expected).run { s with diags := q } =
        (r, { s with builder := b, diags := q.submit log })) ∧
      ({ s with builder := b, diags := s.diags.submit log } : State).Active env ∧
      (∀ v, r = some v → log = [] ∧ Lowers env s.scope e expected s.builder v b) ∧
      (r = none → log.any (·.isError) = true ∨ Blamed env s.scope e ∧ s.Failed)) ∧
    ((enterFunction env d sig start).2.Steady env ∧
      (enterFunction env d sig start).2.builder.Reached) ∧
    (∀ (s : State) (st : Stmt), s.Steady env → s.builder.Reached →
      s.Active env ∧ (lowerStmt env st s).2.Steady env) ∧
    ((lowerProgram config allocator p).hasErrors = false →
      LowersFunction env (parameters d sig) d.body start.builder
        (definitionState config allocator p position d sig).builder) := by
  intro env acc start
  have hc := Collection.ofProgram_fits config p
  have hlt : position < p.functions.length := (List.getElem?_eq_some_iff.1 hd.1).1
  have hready := lowerFirst_ready config ha (Nat.le_of_lt hlt) (p := p)
  have henv : env.Shaped := definitionEnv_shaped hc ha d sig
  have hpoisoned : env.tables.poisoned = [] ∨ hasError acc.2 = true := by
    by_cases hp : env.tables.poisoned = []
    · exact .inl hp
    · obtain ⟨symbol, hs⟩ := List.exists_mem_of_ne_nil _ hp
      exact .inr (hready.errors (hc.poisoned symbol hs))
  have hmem := mem_of_lookup hd.2.1
  obtain ⟨name, hf⟩ := hc.functions _ hmem
  rw [← hready.todo _ hmem (Nat.le_of_eq hd.2.2.symm)] at hf
  refine ⟨fun s e expected hs => lowerExpr_reports henv hs e expected,
    enterFunction_steady d hf hpoisoned, fun s st hs hr => ⟨hs.active hr, lowerStmt_steady henv hs hr st⟩,
    fun herr => ?_⟩
  obtain ⟨s, log, hb, -, hq⟩ := hready.body hc ha hd
  obtain ⟨reach, hs⟩ : ∃ reach, definitionState config allocator p position d sig =
    { s with diags := acc.2.submit log, reach } := (hq acc.2).1
  -- the reports up to and including this definition have no error among them
  have hbefore : hasError acc.2 = false := hasError_lowerFirst ha herr (Nat.le_of_lt hlt)
  have hafter : hasError (acc.2.submit log) = false := by
    have hfirst := hasError_lowerFirst ha herr hlt
    have hget : p.functions[position] = d := (List.getElem?_eq_some_iff.1 hd.1).2
    rw [lowerFirst_succ config allocator hlt, hget] at hfirst
    rcases lowerDefinition_cases config allocator acc hd.1 with ⟨sig', hd', heq⟩ | ⟨hno, -⟩
    · obtain rfl : sig = sig' := Option.some.inj (hd.2.1.symm.trans hd'.2.1)
      rw [heq] at hfirst
      have hdiags : (definitionState config allocator p position d sig).diags = acc.2.submit log :=
        congrArg State.diags hs
      exact hdiags ▸ hfirst
    · exact absurd hd (hno sig)
  have hquiet : Quiet env {} log := by
    rw [hasError_submit, Bool.or_eq_false_iff] at hafter
    refine ⟨⟨by simp, hpoisoned.resolve_right (by simp [hbefore])⟩, fun d hd => ?_⟩
    simpa using List.any_eq_false.1 hafter.2 d hd
  rw [hs]
  exact hb.rule hquiet

/-- A function that counts up to its argument. -/
def countProgram : Program where
  structs := []
  functions := [{
    symbol := "count", receiver := none, params := [⟨"n", .named "i32", ⟨0, 1⟩⟩]
    returnType := .named "i32"
    body := [
      .var ⟨1, 2⟩ "i" (some (.named "i32")) (.int ⟨1, 2⟩ 0),
      .loop ⟨2, 9⟩ (.binary ⟨2, 3⟩ .lt (.ident ⟨2, 3⟩ "i") (.ident ⟨2, 3⟩ "n")) [
        .assign ⟨4, 5⟩ (.ident ⟨4, 5⟩ "i") (.binary ⟨4, 5⟩ .add (.ident ⟨4, 5⟩ "i") (.int ⟨4, 5⟩ 1))],
      .ret ⟨9, 10⟩ (some (.ident ⟨9, 10⟩ "i"))]
    span := ⟨0, 10⟩ }]

/-- A queue with an error about a loop. -/
def loopQueue : Queue := Queue.submit {} [Problem.outsideLoop ⟨7, 8⟩ "break"]

theorem lowering_drops_nothing_count : (lowerProgram {} .collector countProgram).hasErrors = false ∧
    ∃ d sig, Declares countProgram (Collection.ofProgram {} countProgram).tables 0 d sig ∧
      LowersFunction (definitionEnv {} .collector (Collection.ofProgram {} countProgram).tables d sig)
        (parameters d sig) d.body (.start (lowerFirst {} .collector countProgram 0).1 sig.func)
        (definitionState {} .collector countProgram 0 d sig).builder ∧
      -- a name without a binding, where the queue holds an error about something else
      ∃ s : State, s.diags = loopQueue ∧
        s.Active (definitionEnv {} .collector (Collection.ofProgram {} countProgram).tables d sig) ∧
        ∃ b log, (∀ q : Queue, (lowerExpr
            (definitionEnv {} .collector (Collection.ofProgram {} countProgram).tables d sig)
            (.ident ⟨4, 5⟩ "m") none).run { s with diags := q } =
              (none, { s with builder := b, diags := q.submit log })) ∧
          log.any (·.isError) = true := by
  have herr : (lowerProgram {} .collector countProgram).hasErrors = false := by decide +kernel
  obtain ⟨d, sig, hd⟩ : ∃ d sig,
      Declares countProgram (Collection.ofProgram {} countProgram).tables 0 d sig :=
    ⟨_, _, rfl, rfl, rfl⟩
  obtain ⟨hexpr, ⟨hsteady, hreached⟩, hstmt, hrules⟩ := lowering_drops_nothing collector_inline hd
  have hopened := (hstmt _ (.brk ⟨0, 0⟩) hsteady hreached).1.opened
  let env := definitionEnv {} .collector (Collection.ofProgram {} countProgram).tables d sig
  let s : State := { (enterFunction env d sig ⟨.start (lowerFirst {} .collector countProgram 0).1 sig.func,
    (lowerFirst {} .collector countProgram 0).2, {}, [], false, {}⟩).2 with diags := loopQueue, scope := {} }
  have hqueue : hasError loopQueue = true := by decide +kernel
  have hactive : s.Active env := ⟨hopened, .inr hqueue⟩
  obtain ⟨r, b, log, hrun, -, -, hnone⟩ := hexpr s (.ident ⟨4, 5⟩ "m") none hactive
  obtain rfl : r = none := (congrArg Prod.fst (hrun loopQueue)).symm
  refine ⟨herr, d, sig, hd, hrules herr, s, rfl, hactive, b, log, hrun, (hnone rfl).resolve_right ?_⟩
  rintro ⟨⟨m, hm, hp⟩, -⟩
  obtain rfl : m = .name "m" := by simpa [Expr.mentions] using hm
  cases hp

end

end BlockForge.Lowering
