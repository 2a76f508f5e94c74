import BlockForge.Proofs.Lowering.Paths

/-!
# Branches, loops and lists

Bodies are lowered at a position that control gets to, and end by joining where control goes on. An `if`
leaves no block open but the one where its branches join, and control gets there exactly if one of them
completes.
-/

namespace BlockForge.Lowering

open Diagnostic (Diag Queue)
open Ir (BlockId Builder Emit ValueId)
open Ir.Emit
open Source (Chain Expr FunctionDef Span Stmt Visit completesAll properAll runStarts runsOn visitsAll)
open StateM
open Lower (Matches Moves)

section

variable {env : Env} {s s' : State} {log : List Diag}

/-- Whether loop exits lead anywhere. -/
def State.inLoop (s : State) : Bool := !s.loops.isEmpty

/-! ### What bodies do -/

/-- A list is lowered by its structure, from every position. -/
def ListPaths (env : Env) (body : List Stmt) : Prop :=
  ∀ (s : State) (live : Bool), s.Sane → (s.builder.Reached ↔ live = true) →
    ∃ s' log, (lowerStmts env body).Matches (followStmts env s.inLoop live body) s () s' log ∧
      Passes env (live && completesAll s.inLoop body) (properAll body)
        (visitsAll s.inLoop live body) s s' log ∧
      (Quiet env s.scope log →
        LowersStmts env s.loops body s.scope s.builder s'.scope s'.builder)

/-- A statement is lowered by its structure, where control gets to it. -/
def StmtPaths (env : Env) (st : Stmt) : Prop :=
  ∀ s : State, s.Sane → s.builder.Reached →
    ∃ s' log, (lowerStmt env st).Matches (followStmt env s.inLoop st) s () s' log ∧
      Passes env (st.completes s.inLoop) st.isProper (st.visits s.inLoop) s s' log ∧
      (Quiet env s.scope log →
        LowersStmt env s.loops st s.scope s.builder s'.scope s'.builder)

/-- Some work in a scope of its own, and what comes after it. -/
def Lower.inScope (x k : Lower Unit) : Lower Unit := do
  Lower.onScope Scope.push
  x
  Lower.onScope Scope.pop
  k

theorem matches_onScope (f : Scope → Scope) :
    (Lower.onScope f).Matches (Lower.onScope f) s () { s with scope := f s.scope } [] :=
  Lower.matches_modify (fun _ _ => rfl) rfl

/-- A body leaves the scope as it was. -/
theorem inScope_passes {body : List Stmt} (hbody : ListPaths env body) (hs : s.Sane)
    (hr : s.builder.Reached) : ∃ s' log,
      Passes env (completesAll s.inLoop body) (properAll body) (visitsAll s.inLoop true body) s s' log ∧
      s'.scope = s.scope ∧
      (Quiet env s.scope log →
        ∃ scope', LowersStmts env s.loops body s.scope.push s.builder scope' s'.builder) ∧
      ∀ {x y : Lower Unit} {t : State} {log' : List Diag}, x.Matches y s' () t log' →
        (Lower.inScope (lowerStmts env body) x).Matches
          (Lower.inScope (followStmts env s.inLoop true body) y) s () t (log ++ log') := by
  obtain ⟨s₁, log, hm, hpass, hrule⟩ := hbody { s with scope := s.scope.push } true
    ⟨hs.placed, hs.loops⟩ (by simpa using hr)
  have hquiet : Quiet env s.scope log → Quiet env s.scope.push log := fun hq => ⟨hq.toClean.push, hq.errors⟩
  have hscope : s₁.scope.pop = s.scope := congrArg Scope.mk hpass.outer
  refine ⟨{ s₁ with scope := s₁.scope.pop }, log, ?_, hscope, fun hq => ⟨_, hrule (hquiet hq)⟩,
    fun hx => ?_⟩
  · exact {
      builds := hpass.builds.imp (fun _ _ hi => hi) (fun _ hi => hi) fun hn hq => hn (hquiet hq)
      loops := hpass.loops
      outer := by rw [hscope]
      height := by rw [hscope]
      live := hpass.live
      clean := fun hq => by rw [hscope]; exact hq.toClean
      running := hpass.running
      skips := hpass.skips
      returns := hpass.returns }
  · exact (matches_onScope _).bind (hm.bind ((matches_onScope _).bind hx))

/-! ### Where branches join -/

/-- An open block that waits for control; no loop exit leads to it. -/
structure State.Waits (s : State) (stop : BlockId) : Prop where
  lt : stop.index < s.builder.function.blocks.size
  ending : s.builder.function.ending stop = none
  away : s.builder.current ≠ some stop
  free : ¬s.Target stop

/-- What the branches of an `if` do: they lead to `stop` if one of them completes, and leave no block
open in reach. -/
structure Forks (env : Env) (stop : BlockId) (completes proper : Bool) (visits : List Visit)
    (s s' : State) (log : List Diag) : Prop where
  builds : Builds (fun i => i = stop ∧ completes = true ∨ s.Target i) (fun _ => False) (proper = true)
    (¬Quiet env s.scope log) s.builder s'.builder
  loops : s'.loops = s.loops
  scope : s'.scope = s.scope
  dead : ¬s'.builder.Reached
  joins : completes = true → s'.builder.function.Path Ir.Id.entry stop
  running : s'.deadReported = runsOn s.deadReported visits
  skips : log.filter isSkip = (runStarts s.deadReported visits).map Problem.unreachableCode
  returns : ∀ d ∈ log, d.code ≠ .e2030

theorem State.Waits.builds {stop : BlockId} (h : s.Waits stop) {J P : BlockId → Prop} {C E : Prop}
    (k : Builds J P C E s.builder s'.builder) (hl : s'.loops = s.loops) : s'.Waits stop where
  lt := Nat.lt_of_lt_of_le h.lt k.size
  ending := (k.keep h.lt h.away).trans h.ending
  away := k.away h.lt h.away
  free := by simpa [State.Target, hl] using h.free

theorem State.Sane.builds (h : s.Sane) {J P : BlockId → Prop} {C E : Prop}
    (k : Builds J P C E s.builder s'.builder) (hl : s'.loops = s.loops) : s'.Sane := by
  refine ⟨k.placed h.placed, fun i hi => ?_⟩
  obtain ⟨hlt, hp⟩ := h.loops i (by simpa [State.Target, hl] using hi)
  exact ⟨Nat.lt_of_lt_of_le hlt k.size, k.path hp⟩

theorem joins_of_branch {live : Bool} {target : BlockId} {b d : Builder} (hl : b.Reached ↔ live = true)
    (h : (if live then Emit.br target else pure ()) b = ((), d)) : Joins target b d := by
  cases live with
  | true => exact .live (hl.2 rfl) h
  | false =>
    obtain rfl : b = d := congrArg Prod.snd h
    exact .dead (by simp [hl])

/-- A body and the branch to where control joins. -/
theorem body_forks {body : List Stmt} (hbody : ListPaths env body) (hs : s.Sane)
    (hr : s.builder.Reached) {stop : BlockId} (hw : s.Waits stop) : ∃ s' log,
      Forks env stop (completesAll s.inLoop body) (properAll body) (visitsAll s.inLoop true body) s s'
        log ∧
      (Quiet env s.scope log → ∃ scope' b,
        LowersStmts env s.loops body s.scope.push s.builder scope' b ∧ Joins stop b s'.builder) ∧
      ∃ s₁, (∀ {x y : Lower Unit} {t : State} {log' : List Diag}, x.Matches y s₁ () t log' →
        (Lower.inScope (lowerStmts env body) x).Matches
          (Lower.inScope (followStmts env s.inLoop true body) y) s () t (log ++ log')) ∧
        (Lower.branchIfLive stop).Matches (Lower.branchIf (completesAll s.inLoop body) stop) s₁ () s'
          [] := by
  obtain ⟨s₁, log, hpass, hscope, hrule, hm⟩ := inScope_passes hbody hs hr
  have hs₁ := hs.passes hpass
  have hw₁ := hw.builds hpass.builds hpass.loops
  obtain ⟨b, hb, hbuild, hdead, hjoin⟩ := branch_builds (C := properAll body = true)
    (E := ¬Quiet env s.scope log) hs₁.placed hpass.live hw₁.lt
  refine ⟨{ s₁ with builder := b }, log, ?_, fun hq => ?_, s₁, hm,
    Lower.matches_branch hs₁.placed hpass.live hb hbuild.toSpreads⟩
  · refine ⟨?_, hpass.loops, hscope, hdead, hjoin, hpass.running, hpass.skips, hpass.returns⟩
    -- the block where control joins was waiting, and may come into reach here
    refine (hpass.builds.imp (fun _ _ hi => .inr hi) (fun _ hi => hi) id).trans hbuild
      (X := (· = stop)) (fun i _ hi => .inl hi) (fun i _ hi => .inl hi.1) ?_
      (fun i hi hne => absurd hi hne) (by simp) id id
    rintro i rfl
    exact ⟨(hbuild.keep hw₁.lt hw₁.away).trans hw₁.ending, .inr ⟨hw.lt, hw.away⟩⟩
  · obtain ⟨scope', hlower⟩ := hrule hq
    exact ⟨scope', _, hlower, joins_of_branch hpass.live hb⟩

/-! ### Chains -/

theorem nextBlock_makes {b : Builder} (hv : b.func.index < b.module.functions.size) (stop : BlockId)
    (rest : Chain) : ∃ next n b', nextBlock stop rest b = (next, b') ∧ Makes n b b' ∧
      (rest.isDone = true ∧ n = 0 ∧ next = stop ∨
        rest.isDone = false ∧ n = 1 ∧ next.index = b.function.blocks.size) := by
  cases rest with
  | done =>
    exact ⟨stop, 0, b, rfl, ⟨.refl b, rfl, rfl, rfl, rfl⟩, .inl ⟨rfl, rfl, rfl⟩⟩
  | otherwise body =>
    obtain ⟨hi, hm⟩ := appendBlock_makes hv "if.else"
    exact ⟨_, 1, _, rfl, hm, .inr ⟨rfl, rfl, hi⟩⟩
  | clause cond body rest =>
    obtain ⟨hi, hm⟩ := appendBlock_makes hv "if.cond"
    exact ⟨_, 1, _, rfl, hm, .inr ⟨rfl, rfl, hi⟩⟩

/-- The test of a clause leads to its body and to what is left of the chain. -/
theorem clause_test (hs : s.Sane) (hr : s.builder.Reached) {stop : BlockId} (hw : s.Waits stop)
    {o : Operand} (ho : o.Sound env) (rest : Chain) (what : String) : ∃ (b : Builder) (start next : BlockId)
      (log : List Diag), Plain log ∧ b.Reached ∧ b.current = some start ∧
      b.function.Path Ir.Id.entry next ∧
      (∀ {C E : Prop}, Builds (fun i => i = stop ∧ rest.isDone = true)
        (fun i => i = start ∨ i = next ∧ rest.isDone = false) C E s.builder b) ∧
      (rest.isDone = true ∧ next = stop ∨ rest.isDone = false ∧ next ≠ stop ∧
        s.builder.function.blocks.size ≤ next.index ∧ next.index < b.function.blocks.size ∧
        b.function.ending next = none ∧ next ≠ start) ∧
      (Quiet env s.scope log → ∃ v b₁ b₂ b₃ b₄, Lowers env s.scope o.expr (some .bool) s.builder v b₁ ∧
        v.ty = .bool ∧ Emit.appendBlock "if.then" b₁ = (start, b₂) ∧
        nextBlock stop rest b₂ = (next, b₃) ∧ Emit.condBr v.value start next b₃ = ((), b₄) ∧
        Emit.positionAt start b₄ = ((), b)) ∧
      ∀ {f g : BlockId → Lower Unit} {t : State} {log' : List Diag},
        (f next).Matches (g next) { s with builder := b } () t log' →
        (do
          let c ← lowerCondition o what
          let start ← Lower.emit (Emit.appendBlock "if.then")
          let next ← Lower.emit (nextBlock stop rest)
          Lower.emit (Emit.condBr c start next)
          Lower.emit (Emit.positionAt start)
          f next : Lower Unit).Matches (do
          let c ← lowerCondition o what
          let start ← Lower.emit (Emit.appendBlock "if.then")
          let next ← Lower.emit (nextBlock stop rest)
          Lower.emit (Emit.condBr c start next)
          Lower.emit (Emit.positionAt start)
          g next) s () t (log ++ log') := by
  have hopen := hs.placed.opened hr
  obtain ⟨v, b₁, log, hy, hp, h₁, hrule⟩ := lowerCondition_works s.scope hopen ho what
  obtain ⟨start, b₂, hstart, hi₂, h₂⟩ : ∃ start b₂, Emit.appendBlock "if.then" b₁ = (start, b₂) ∧
      start.index = b₁.function.blocks.size ∧ Makes 1 b₁ b₂ :=
    ⟨_, _, rfl, appendBlock_makes h₁.opened.valid "if.then"⟩
  obtain ⟨next, n, b₃, hnext, h₃, hn⟩ := nextBlock_makes (h₂.opened h₁.opened).valid stop rest
  have h₁₃ := h₂.trans h₃
  have ho₃ := h₁₃.opened h₁.opened
  obtain ⟨c, hc, hlt, hpc⟩ : ∃ c, b₁.current = some c ∧ c.index < b₁.function.blocks.size ∧
      b₁.function.Path Ir.Id.entry c := by
    obtain ⟨c, hc, hlt, -⟩ := h₁.opened.position
    obtain ⟨d, hd, -, hpd⟩ := (Builder.Reached.advances hr h₁).position
    obtain rfl : c = d := Option.some.inj (hc.symm.trans hd)
    exact ⟨c, hc, hlt, hpd⟩
  have hc₃ : b₃.current = some c := h₁₃.current.trans hc
  have hsize₃ : b₃.function.blocks.size = b₁.function.blocks.size + (1 + n) := h₁₃.size
  have hle₁ := h₁.size
  obtain ⟨b₄, hcond, h₄⟩ : ∃ b₄, Emit.condBr v start next b₃ = ((), b₄) ∧
      Turns b₃ b₄ (.condBr v start next) c := ⟨_, rfl, condBr_turns ho₃ hc₃ v start next⟩
  have hstop : c ≠ stop := by
    rintro rfl
    exact h₁.spreads.away hw.lt hw.away hc
  have hlt₂ : next.index < b₃.function.blocks.size := by
    rcases hn with ⟨-, -, rfl⟩ | ⟨-, rfl, hi⟩
    · have := hw.lt
      omega
    · rw [hi, h₂.size]
      omega
  -- the two blocks that the test leads to are open, and stay so
  have hopen₄ : ∀ i : BlockId, i = start ∨ i = next → b₄.function.ending i = none := by
    rintro i hi
    have hcase : i = stop ∨ b₁.function.blocks.size ≤ i.index := by
      rcases hi with rfl | rfl
      · exact .inr (by omega)
      · rcases hn with ⟨-, -, rfl⟩ | ⟨-, -, hi⟩
        · exact .inl rfl
        · exact .inr (by rw [hi, h₂.size]; omega)
    rcases hcase with rfl | hle
    · rw [h₄.ending hc₃, if_neg (Ne.symm hstop), h₁₃.ending, h₁.keep hw.lt hw.away]
      exact hw.ending
    · rw [h₄.ending hc₃, if_neg (by rintro rfl; omega), h₁₃.ending]
      exact Ir.Function.ending_eq_none hle
  have hpath : ∀ i : BlockId, i = start ∨ i = next → b₄.function.Path Ir.Id.entry i := by
    intro i hi
    refine h₄.path ho₃ hc₃ (by
      simp only [Ir.Function.Path, Ir.Function.succs, h₁₃.ending]
      exact hpc) ?_
    simpa [Ir.Terminator.successors] using hi
  have hpos : Emit.positionAt start b₄ = ((), { b₄ with current := some start }) :=
    positionAt_eq (by rw [h₄.size]; omega)
  have hnew : rest.isDone = true ∧ next = stop ∨ rest.isDone = false ∧ next ≠ stop ∧
      s.builder.function.blocks.size ≤ next.index ∧ next.index < b₄.function.blocks.size ∧
      b₄.function.ending next = none ∧ next ≠ start := by
    refine hn.imp (fun h => ⟨h.1, h.2.2⟩) fun h => ?_
    obtain ⟨hd, -, hi⟩ := h
    rw [h₂.size] at hi
    have := hw.lt
    refine ⟨hd, by rintro rfl; omega, by omega, by rw [h₄.size]; exact hlt₂,
      hopen₄ next (.inr rfl), by rintro rfl; omega⟩
  refine ⟨{ b₄ with current := some start }, start, next, log, hp,
    ⟨start, rfl, hopen₄ start (.inl rfl), hpath start (.inl rfl)⟩, rfl, hpath next (.inr rfl),
    fun {C E} => ?_, hnew, fun hq => ?_, fun hk => ?_⟩
  · have hmakes : Builds (fun i => i = stop ∧ rest.isDone = true) (fun i => b₃.current = some i ∨
        b₁.function.blocks.size ≤ i.index ∧ i.index < b₃.function.blocks.size) C E s.builder b₃ :=
      (h₁.builds.imp (by simp) (fun _ hi => hi) id).andThen h₁₃.builds (by simp) (by simp)
        (fun i hi hne => absurd hi hne)
        (fun i hi => hi.imp h₁₃.current.trans id) id id
    have hsucc : ∀ i ∈ (Ir.Terminator.condBr v start next).successors, i = start ∨ i = next := by
      simp [Ir.Terminator.successors]
    have hturn := h₄.builds (C := C) (E := E) ho₃ hc₃ (fun i hi => by
      rcases hsucc i hi with rfl | rfl
      · omega
      · exact hlt₂) (by simp)
    refine (hmakes.trans hturn (X := fun i => i = start ∨ i = next) (fun i hlt hi => ?_)
      (fun i _ hi => .inl (hsucc i hi)) (fun i hi => ⟨hopen₄ i hi, ?_⟩) (fun i hi hne => ?_) (by simp)
      id id).moved (by omega) (by rw [h₄.size]; omega)
    · rcases hsucc i hi with rfl | rfl
      · omega
      · exact hnew.elim (fun h => ⟨h.2, h.1⟩) fun h => by omega
    · rcases hi with rfl | rfl
      · exact .inl (.inl rfl)
      · rcases hnew with ⟨-, rfl⟩ | h
        · exact .inr ⟨hw.lt, hw.away⟩
        · exact .inl (.inr ⟨rfl, h.1⟩)
    · obtain ⟨hle, hlt₃⟩ := hi.resolve_left hne
      by_cases his : i = start
      · exact .inl his
      · have hne : i.index ≠ start.index := fun he => his (Ir.Id.ext he)
        rcases hn with ⟨-, rfl, -⟩ | ⟨hd, rfl, hi⟩
        · omega
        · rw [h₂.size] at hi
          exact .inr ⟨Ir.Id.ext (by omega), hd⟩
  · obtain ⟨w, hw, ht, rfl⟩ := hrule hq hp
    exact ⟨w, b₁, b₂, b₃, b₄, hw, ht, hstart, hnext, hcond, hpos⟩
  · refine (hy.moves.same h₁.spreads).bind ?_
    refine (Lower.matches_emit (s := { s with builder := b₁ }) hstart h₂.spreads).bind ?_
    refine (Lower.matches_emit (s := { s with builder := b₂ }) hnext h₃.spreads).bind ?_
    refine (Lower.matches_emit (s := { s with builder := b₃ }) hcond
      (h₄.spreads ho₃ hc₃ fun i hi => ?_)).bind ?_
    · rcases (by simpa [Ir.Terminator.successors] using hi : i = start ∨ i = next) with rfl | rfl
      · omega
      · exact hlt₂
    · exact (Lower.matches_positionAt (s := { s with builder := b₄ })
        (by rw [h₄.size]; omega)).bind hk

/-- Control does not get to a block that no block leads to. -/
theorem not_path_of_no_succs {f : Ir.Function} {i : BlockId} (h : ∀ j, i ∉ f.succs j) (hi : i.index ≠ 0) :
    ¬f.Path Ir.Id.entry i := by
  intro hp
  rcases hp.cases_tail with rfl | ⟨j, -, hj⟩
  · exact hi rfl
  · exact h j hj

/-- What is left of an `if` is lowered by its structure, where control gets to it. -/
def ChainPaths (env : Env) (chain : Chain) : Prop :=
  ∀ (s : State) (stop : BlockId), chain.isDone = false → s.Sane → s.builder.Reached → s.Waits stop →
    ∃ s' log, (lowerChain env stop chain).Matches (followChain env s.inLoop stop chain) s () s' log ∧
      Forks env stop (chain.completes s.inLoop) chain.isProper (chain.visits s.inLoop) s s' log ∧
      (Quiet env s.scope log → LowersChain env s.loops stop chain s.scope s.builder s'.builder)

theorem otherwise_paths {body : List Stmt} (hbody : ListPaths env body) :
    ChainPaths env (.otherwise body) := by
  intro s stop _ hs hr hw
  obtain ⟨s', log, hf, hrule, s₁, hm, hbranch⟩ := body_forks hbody hs hr hw
  have hmatch := hm hbranch
  rw [List.append_nil] at hmatch
  refine ⟨s', log, hmatch, hf, fun hq => ?_⟩
  obtain ⟨scope', b, hlower, hjoin⟩ := hrule hq
  exact .otherwise hlower hjoin

theorem clause_paths (henv : env.Shaped) {cond : Expr} {body : List Stmt} {rest : Chain}
    (hbody : ListPaths env body) (hrest : ChainPaths env rest) :
    ChainPaths env (.clause cond body rest) := by
  intro s stop _ hs hr hw
  obtain ⟨b₁, start, next, log₁, hp₁, hr₁, hc₁, hnext₁, hb₁, hcase, hrule₁, hm₁⟩ :=
    clause_test hs hr hw (operand_sound henv cond) rest "condition of `if`"
  have hb₁' := hb₁ (C := True) (E := False)
  have hs₁ : State.Sane { s with builder := b₁ } := hs.builds hb₁' rfl
  have hw₁ : State.Waits { s with builder := b₁ } stop := hw.builds hb₁' rfl
  obtain ⟨s₂, log₂, hf₂, hrule₂, t, hm₂, hbranch⟩ := body_forks hbody hs₁ hr₁ hw₁
  have hw₂ := hw₁.builds hf₂.builds hf₂.loops
  -- up to here only the next block is left open in reach
  have hb₂ : Builds (fun i => i = stop ∧ (Chain.clause cond body rest).completes s.inLoop = true ∨
      s.Target i) (fun i => i = next ∧ rest.isDone = false) (properAll body = true)
      (¬Quiet env s.scope (log₁ ++ log₂)) s.builder s₂.builder := by
    refine (hb₁.imp (K := fun i => i = stop ∧ (Chain.clause cond body rest).completes s.inLoop = true ∨
      s.Target i) (fun i _ hi => ?_) (fun _ hi => hi) id).trans hf₂.builds (X := (· = stop))
      (fun i _ hi => ?_) (fun i _ hi => ?_) ?_ (fun i hi hne => ?_) (by simp) id fun hn hq => ?_
    · refine .inl ⟨hi.1, ?_⟩
      cases rest with
      | done => simp [Chain.completes]
      | otherwise _ => cases hi.2
      | clause _ _ _ => cases hi.2
    · refine hi.imp (fun hi => ⟨hi.1, ?_⟩) id
      simp only [Chain.completes, Bool.or_eq_true]
      exact .inl hi.2
    · exact hi.imp (fun hi => hi.1) fun hi => (hs₁.loops i hi).2
    · rintro i rfl
      exact ⟨hw₂.ending, .inr ⟨hw.lt, hw.away⟩⟩
    · exact hi.resolve_left fun his => hne (his ▸ hc₁)
    · exact hn (hq.right hq.toClean)
  have hskips₂ : (log₁ ++ log₂).filter isSkip =
      (runStarts s.deadReported (visitsAll s.inLoop true body)).map Problem.unreachableCode := by
    rw [List.filter_append, filter_isSkip hp₁]
    exact hf₂.skips
  have hrun₂ : s₂.deadReported = runsOn s.deadReported (visitsAll s.inLoop true body) := hf₂.running
  have hreturns₂ : ∀ d ∈ log₁ ++ log₂, d.code ≠ .e2030 := by
    rintro d hd
    exact (List.mem_append.1 hd).elim (hp₁.returns d) (hf₂.returns d)
  rcases hcase with ⟨hdone, rfl⟩ | ⟨hdone, hne, hge, hlt, hopen, hstart⟩
  · -- nothing is left, and control goes on where the branches join
    obtain rfl : rest = .done := by
      cases rest with
      | done => rfl
      | otherwise _ => cases hdone
      | clause _ _ _ => cases hdone
    refine ⟨s₂, log₁ ++ log₂, ?_, ?_, fun hq => ?_⟩
    · rw [← List.append_nil log₂]
      refine hm₁ (hm₂ (hbranch.bind ?_))
      rw [if_neg (by simp), if_neg (by simp)]
      exact .pure ()
    · refine ⟨(hb₂.imp (fun _ _ hi => hi) (fun i hi => by simp [hdone] at hi) id).under fun h => ?_,
        hf₂.loops, hf₂.scope, hf₂.dead, fun _ => hf₂.builds.path hnext₁, ?_, ?_, hreturns₂⟩
      · simpa [Chain.isProper] using h
      · simpa [Chain.visits] using hrun₂
      · simpa [Chain.visits] using hskips₂
    · obtain ⟨v, c₁, c₂, c₃, c₄, hv, ht, h₂, h₃, h₄, h₅⟩ := hrule₁ hq.left
      obtain ⟨scope', d, hlower, hjoin⟩ := hrule₂ (hq.right hq.toClean)
      exact .clause hv ht h₂ h₃ h₄ h₅ hlower hjoin (by rw [if_neg (by simp)]; rfl) .done
  · have hlt₂ : next.index < s₂.builder.function.blocks.size := Nat.lt_of_lt_of_le hlt hf₂.builds.size
    have haway : b₁.current ≠ some next := fun he => hstart (Option.some.inj (he.symm.trans hc₁))
    have hopen₂ : s₂.builder.function.ending next = none := (hf₂.builds.keep hlt haway).trans hopen
    have hb₃ := (hb₂.imp (fun _ _ hi => hi) (fun i hi => hi.1) id).moved hge hlt₂
    let s₃ : State := { s₂ with builder := { s₂.builder with current := some next } }
    have hloops₃ : s₃.loops = s.loops := hf₂.loops
    have hs₃ : s₃.Sane := hs.builds hb₃ hloops₃
    have hw₃ : s₃.Waits stop := hw.builds hb₃ hloops₃
    have hr₃ : s₃.builder.Reached := ⟨next, rfl, hopen₂, hf₂.builds.path hnext₁⟩
    have hin : s₃.inLoop = s.inLoop := by rw [State.inLoop, hloops₃, State.inLoop]
    obtain ⟨s₄, log₃, hm₄, hf₄, hrule₄⟩ := hrest s₃ stop hdone hs₃ hr₃ hw₃
    rw [hin] at hm₄ hf₄
    have hscope₃ : s₃.scope = s.scope := hf₂.scope
    rw [hscope₃, hloops₃] at hrule₄
    have hw₄ := hw₃.builds hf₄.builds hf₄.loops
    refine ⟨s₄, log₁ ++ (log₂ ++ log₃), ?_, ?_, fun hq => ?_⟩
    · refine hm₁ (hm₂ (hbranch.bind ?_))
      rw [if_pos hne, if_pos hne]
      exact (Lower.matches_positionAt hlt₂).bind hm₄
    · refine ⟨?_, hf₄.loops.trans hloops₃, hf₄.scope.trans hscope₃, hf₄.dead, ?_, ?_, ?_, ?_⟩
      · have hand := Bool.and_eq_true (properAll body) rest.isProper
        refine (hb₃.under fun h : (Chain.clause cond body rest).isProper = true => (hand ▸ h).1).trans
          (hf₄.builds.under fun h => (hand ▸ h).2) (X := (· = stop)) (fun i _ hi => ?_)
          (fun i _ hi => ?_) ?_ (fun i hi hne => absurd (hi ▸ rfl) hne) (by simp) (fun hn hq => ?_)
          fun hn hq => ?_
        · refine hi.imp (fun hi => ⟨hi.1, ?_⟩) fun hi => ?_
          · simp only [Chain.completes, Bool.or_eq_true]
            exact .inr hi.2
          · simpa [State.Target, hloops₃] using hi
        · exact hi.imp (fun hi => hi.1) fun hi => (hs₃.loops i hi).2
        · rintro i rfl
          exact ⟨hw₄.ending, .inr ⟨hw.lt, hw.away⟩⟩
        · rw [← List.append_assoc] at hq
          exact hn hq.left
        · rw [hscope₃] at hn
          exact hn ((hq.right hq.toClean).right hq.toClean)
      · intro h
        simp only [Chain.completes, Bool.or_eq_true] at h
        rcases h with h | h
        · exact hf₄.builds.path (hf₂.joins h)
        · exact hf₄.joins h
      · rw [Chain.visits, runsOn_append, ← hrun₂]
        exact hf₄.running
      · rw [← List.append_assoc, List.filter_append, hskips₂, hf₄.skips, Chain.visits, runStarts_append,
          List.map_append, ← hrun₂]
      · intro d hd
        rw [← List.append_assoc] at hd
        exact (List.mem_append.1 hd).elim (hreturns₂ d) (hf₄.returns d)
    · obtain ⟨v, c₁, c₂, c₃, c₄, hv, ht, h₂, h₃, h₄, h₅⟩ := hrule₁ hq.left
      obtain ⟨scope', d, hlower, hjoin⟩ := hrule₂ (hq.right hq.toClean).left
      refine .clause hv ht h₂ h₃ h₄ h₅ hlower hjoin ?_ (hrule₄ ((hq.right hq.toClean).right hq.toClean))
      rw [if_pos hne]
      exact positionAt_eq hlt₂

theorem cond_paths {chain : Chain} (hchain : ChainPaths env chain) (span : Span) :
    StmtPaths env (.cond span chain) := by
  intro s hs hr
  obtain ⟨stop, b₁, hstop, hi, h₁⟩ : ∃ stop b₁, Emit.appendBlock "if.end" s.builder = (stop, b₁) ∧
      stop.index = s.builder.function.blocks.size ∧ Makes 1 s.builder b₁ :=
    ⟨_, _, rfl, appendBlock_makes hs.placed.valid "if.end"⟩
  have hsize := h₁.size
  have hentry := hs.placed.entry
  have hlt : stop.index < b₁.function.blocks.size := by omega
  have hnone : ∀ j, stop ∉ b₁.function.succs j := by
    intro j hj
    rw [Ir.Function.succs, h₁.ending] at hj
    have := hs.placed.bounded hj
    omega
  cases hdone : chain.isDone with
  | true =>
    obtain rfl : chain = .done := by
      cases chain with
      | done => rfl
      | otherwise _ => cases hdone
      | clause _ _ _ => cases hdone
    refine ⟨{ s with builder := { b₁ with current := some stop } }, [], ?_, ?_, fun _ => ?_⟩
    · exact (Lower.matches_emit hstop h₁.spreads).bind ((Matches.pure ()).bind
        (Lower.matches_positionAt (s := { s with builder := b₁ }) hlt))
    · refine ⟨⟨h₁.spreads.moved (by omega) hlt |>.mono (by simp), by simp [Stmt.isProper, Chain.isDone],
        (h₁.builds (C := True)).deadEnds⟩, rfl, rfl, rfl, ?_, Quiet.toClean, rfl, rfl, by simp⟩
      simp only [Stmt.completes, Chain.isDone, Bool.not_true, Bool.false_and, Bool.false_eq_true, iff_false]
      rintro ⟨c, hc, -, hp⟩
      obtain rfl := Option.some.inj hc
      exact not_path_of_no_succs hnone (by omega) hp
    · exact .cond hstop .done (positionAt_eq hlt)
  | false =>
    let s₁ : State := { s with builder := b₁ }
    have hs₁ : s₁.Sane := hs.builds (h₁.builds (C := True) (E := True)) rfl
    have hw₁ : s₁.Waits stop := by
      refine ⟨hlt, ?_, fun hc => ?_, fun ht => ?_⟩
      · rw [h₁.ending]
        exact Ir.Function.ending_eq_none (by omega)
      · obtain ⟨c, hc', hlt⟩ := hs.placed.position
        obtain rfl : stop = c := Option.some.inj (hc.symm.trans (h₁.current.trans hc'))
        omega
      · have := (hs.loops stop ht).1
        omega
    obtain ⟨s₂, log, hm, hf, hrule⟩ := hchain s₁ stop hdone hs₁ (h₁.reached hr) hw₁
    have hw₂ := hw₁.builds hf.builds hf.loops
    refine ⟨{ s₂ with builder := { s₂.builder with current := some stop } }, log, ?_, ?_, fun hq => ?_⟩
    · rw [← List.append_nil log]
      exact (Lower.matches_emit hstop h₁.spreads).bind (hm.bind (Lower.matches_positionAt hw₂.lt))
    · have hopen : (!chain.isDone) = true := by simp [hdone]
      refine ⟨?_, hf.loops, by rw [hf.scope], by rw [hf.scope], ?_, ?_, hf.running, hf.skips, hf.returns⟩
      · refine (Builds.trans (h₁.builds.imp (by simp) (fun _ hi => hi) id)
          (hf.builds.under fun h => ?_) (X := (· = stop)) (fun i hlt hi => ?_) (fun i _ hi => ?_) ?_
          (fun i hi hne => ?_) (by simp) id id).moved (by omega) hw₂.lt
        · exact ((Bool.and_eq_true ..).mp h).2
        · refine hi.resolve_left fun hi => ?_
          rw [hi.1] at hlt
          omega
        · exact hi.imp (fun hi => hi.1) fun hi => (hs₁.loops i hi).2
        · rintro i rfl
          exact ⟨hw₂.ending, .inl rfl⟩
        · obtain ⟨hle, hlt⟩ := hi.resolve_left fun hc => hne (h₁.current.trans hc)
          exact congrArg some (Ir.Id.ext (by omega))
      · rw [Stmt.completes, hopen, Bool.true_and]
        refine ⟨fun hreach => ?_, fun h => ⟨stop, rfl, hw₂.ending, hf.joins h⟩⟩
        obtain ⟨c, hc, -, hp⟩ := hreach
        obtain rfl := Option.some.inj hc
        by_contra hn
        refine not_path_of_no_succs (fun j hj => ?_) (by omega) hp
        rcases hf.builds.edges hw₁.lt hj with hj | ⟨-, hj⟩ | hj
        · exact hnone j hj
        · exact hn hj
        · exact hw₁.free hj
      · intro hq
        rw [hf.scope]
        exact hq.toClean
    · rw [hf.scope]
      exact .cond hstop (hrule hq) (positionAt_eq hw₂.lt)

end

end BlockForge.Lowering
