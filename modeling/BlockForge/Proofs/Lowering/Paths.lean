import BlockForge.Proofs.Lowering.Walk

/-!
# Paths through statements

What a statement does to the block graph follows its structure: the position after it is reached exactly if
the statement completes, and no other block is left open in reach. Lowering by reachability is therefore
lowering by structure, in programs with and without errors.
-/

namespace BlockForge.Lowering

open Diagnostic (Diag Queue)
open Ir (BlockId Builder Emit ValueId)
open Ir.Emit
open Source (Chain Expr FunctionDef Span Stmt TypeExpr Visit completesAll properAll runStarts runsOn
  visitsAll)
open Attempt (Judged Verdict)
open StateM
open Lower (Matches Moves)
open BlockForge.Types (Ty)

/-! ### Without errors -/

/-- No declaration in scope has failed. -/
structure Clean (env : Env) (scope : Scope) : Prop where
  names : ∀ frame ∈ scope.frames, ∀ e ∈ frame, e.2 ≠ .poisoned
  symbols : env.tables.poisoned = []

/-- No declaration in scope has failed, and no error is submitted. -/
structure Quiet (env : Env) (scope : Scope) (log : List Diag) : Prop extends Clean env scope where
  errors : ∀ d ∈ log, d.isError = false

section

variable {env : Env} {scope : Scope} {log : List Diag}

theorem Clean.lookup? (h : Clean env scope) (name : String) :
    scope.lookup? name ≠ some .poisoned := by
  intro hn
  obtain ⟨frame, hframe, hb⟩ := List.exists_of_findSome?_eq_some hn
  exact h.names frame hframe _ (mem_of_lookup hb) rfl

theorem Clean.not_blamed (h : Clean env scope) (e : Expr) : ¬Blamed env scope e := by
  rintro ⟨m, -, hp⟩
  cases m with
  | name name => exact h.lookup? name hp
  | callee symbol => simp [Mention.Poisoned, Tables.isPoisoned, h.symbols] at hp

theorem Clean.push (h : Clean env scope) : Clean env scope.push := by
  refine ⟨fun frame hf e he => ?_, h.symbols⟩
  rcases List.mem_cons.1 hf with rfl | hf
  · cases he
  · exact h.names frame hf e he

theorem Clean.pop (h : Clean env scope) : Clean env scope.pop :=
  ⟨fun frame hf => h.names frame (List.mem_of_mem_tail hf), h.symbols⟩

theorem Quiet.left {l₁ l₂ : List Diag} (h : Quiet env scope (l₁ ++ l₂)) : Quiet env scope l₁ :=
  ⟨h.toClean, fun d hd => h.errors d (by simp [hd])⟩

theorem Quiet.right {l₁ l₂ : List Diag} (h : Quiet env scope (l₁ ++ l₂)) {scope' : Scope}
    (hc : Clean env scope') : Quiet env scope' l₂ := ⟨hc, fun d hd => h.errors d (by simp [hd])⟩

/-- Mistakes in expressions are errors. -/
theorem Quiet.eq_nil (h : Quiet env scope log) (hp : Plain log) : log = [] := by
  by_contra hne
  obtain ⟨d, hd, herr⟩ := List.any_eq_true.1 (hp.any_isError.2 hne)
  rw [h.errors d hd] at herr
  cases herr

/-- Where nothing is wrong, an expression has a value. -/
theorem Quiet.not_none {α : Type} (h : Quiet env scope log) {e : Expr} {P : α → Builder → Prop}
    {b : Builder} (hp : Plain log) : ¬Verdict (Blamed env scope e) P none b log :=
  fun hv => hv.elim (· (h.eq_nil hp)) (h.not_blamed e)

theorem Quiet.verdict {α : Type} (h : Quiet env scope log) {e : Expr} {P : α → Builder → Prop}
    {r : Option α} {b : Builder} (hp : Plain log) (hv : Verdict (Blamed env scope e) P r b log) :
    ∃ a, r = some a ∧ P a b := by
  cases r with
  | some a => exact ⟨a, rfl, hv.2⟩
  | none => exact absurd hv (h.not_none hp)

end

/-! ### What statements do -/

/-- A block that a loop exit leads to. -/
def State.Target (s : State) (i : BlockId) : Prop := ∃ t ∈ s.loops, i = t.test ∨ i = t.stop

/-- A state between statements. -/
structure State.Sane (s : State) : Prop where
  placed : s.builder.Placed
  loops : ∀ i, s.Target i → i.index < s.builder.function.blocks.size ∧
    s.builder.function.Path Ir.Id.entry i

/-- A report of a skipped statement. -/
def isSkip (d : Diag) : Bool := d.code == .w2001

/-- What lowering statements does, if they complete or not and meet the given statements. -/
structure Passes (env : Env) (completes proper : Bool) (visits : List Visit) (s s' : State)
    (log : List Diag) : Prop where
  builds : Builds s.Target (fun i => s'.builder.current = some i) (proper = true)
    (¬Quiet env s.scope log) s.builder s'.builder
  loops : s'.loops = s.loops
  outer : s'.scope.frames.tail = s.scope.frames.tail
  height : s'.scope.frames.length = s.scope.frames.length
  live : s'.builder.Reached ↔ completes = true
  clean : Quiet env s.scope log → Clean env s'.scope
  running : s'.deadReported = runsOn s.deadReported visits
  skips : log.filter isSkip = (runStarts s.deadReported visits).map Problem.unreachableCode
  returns : ∀ d ∈ log, d.code ≠ .e2030

theorem filter_isSkip {log : List Diag} (h : Plain log) : log.filter isSkip = [] := by
  refine List.filter_eq_nil_iff.2 fun d hd => ?_
  have := h d hd
  simp only [isPlain, Bool.and_eq_true, bne_iff_ne] at this
  simpa [isSkip] using this.1

theorem Plain.returns {log : List Diag} (h : Plain log) : ∀ d ∈ log, d.code ≠ .e2030 := by
  intro d hd
  have := h d hd
  simp only [isPlain, Bool.and_eq_true, bne_iff_ne] at this
  exact this.2

theorem runsOn_append (running : Bool) (v₁ v₂ : List Visit) :
    runsOn running (v₁ ++ v₂) = runsOn (runsOn running v₁) v₂ := by
  unfold runsOn
  rw [List.getLast?_append]
  cases v₂.getLast? <;> rfl

theorem runsOn_cons (running : Bool) (v : Visit) (rest : List Visit) :
    runsOn running (v :: rest) = runsOn v.skipped rest := runsOn_append running [v] rest

theorem runStarts_append (running : Bool) (v₁ v₂ : List Visit) :
    runStarts running (v₁ ++ v₂) = runStarts running v₁ ++ runStarts (runsOn running v₁) v₂ := by
  induction v₁ generalizing running with
  | nil => rfl
  | cons v rest ih =>
    obtain ⟨span, skipped⟩ := v
    cases skipped with
    | false => rw [List.cons_append, runStarts, runStarts, ih, runsOn_cons]
    | true => rw [List.cons_append, runStarts, runStarts, ih, runsOn_cons, List.append_assoc]

section

variable {env : Env} {s s' t : State} {log : List Diag} {completes proper : Bool}
  {visits : List Visit}

theorem State.Sane.passes (h : s.Sane) (k : Passes env completes proper visits s s' log) : s'.Sane := by
  refine ⟨k.builds.placed h.placed, fun i hi => ?_⟩
  obtain ⟨hlt, hp⟩ := h.loops i (by simpa [State.Target, k.loops] using hi)
  exact ⟨Nat.lt_of_lt_of_le hlt k.builds.size, k.builds.path hp⟩

theorem Passes.refl (h : s.builder.Reached ↔ completes = true) : Passes env completes proper [] s s [] :=
  ⟨.refl _, rfl, rfl, rfl, h, Quiet.toClean, rfl, rfl, by simp⟩

/-- One statement after another. -/
theorem Passes.trans (h : s.Sane) {completes' proper' : Bool} {visits' : List Visit}
    {log' : List Diag} (k₁ : Passes env completes proper visits s s' log)
    (k₂ : Passes env completes' proper' visits' s' t log') :
    Passes env completes' (proper && proper') (visits ++ visits') s t (log ++ log') where
  builds := by
    have hand := Bool.and_eq_true proper proper'
    have h₁ := k₁.builds.under fun h : (proper && proper') = true => (hand ▸ h).1
    have h₂ := k₂.builds.under fun h : (proper && proper') = true => (hand ▸ h).2
    refine h₁.andThen h₂ (fun i _ hi => ?_) (fun i _ hi => ((h.passes k₁).loops i hi).2)
      (fun i hi hne => absurd hi hne) (fun i hi => hi) (fun hq hquiet => hq hquiet.left)
      fun hq hquiet => hq (hquiet.right (k₁.clean hquiet.left))
    simpa [State.Target, k₁.loops] using hi
  loops := k₂.loops.trans k₁.loops
  outer := k₂.outer.trans k₁.outer
  height := k₂.height.trans k₁.height
  live := k₂.live
  clean hq := k₂.clean (hq.right (k₁.clean hq.left))
  running := by rw [k₂.running, k₁.running, runsOn_append]
  skips := by
    rw [List.filter_append, k₁.skips, k₂.skips, k₁.running, runStarts_append, List.map_append]
  returns d hd := by
    rcases List.mem_append.1 hd with hd | hd
    · exact k₁.returns d hd
    · exact k₂.returns d hd

/-! ### Straight code -/

theorem Builder.Reached.advances {b b' : Builder} (h : b.Reached) (ha : Advances b b') : b'.Reached := by
  obtain ⟨c, hc, -, hp⟩ := h.position
  obtain ⟨d, hd, -, ho⟩ := ha.opened.position
  exact ⟨d, hd, ho, (path_of_ended ha.ended hp).trans (ha.path hc hd)⟩

/-- Work of expressions, and perhaps a new name in the innermost scope. -/
theorem advances_passes (hr : s.builder.Reached) {b : Builder} (ha : Advances s.builder b)
    (hp : Plain log) {scope : Scope} (ho : scope.frames.tail = s.scope.frames.tail)
    (hh : scope.frames.length = s.scope.frames.length) (hc : Quiet env s.scope log → Clean env scope) :
    Passes env true true [] s { s with builder := b, scope } log where
  builds := ha.builds.imp (by simp) (fun _ hi => hi) id
  loops := rfl
  outer := ho
  height := hh
  live := by simpa using Builder.Reached.advances hr ha
  clean := hc
  running := rfl
  skips := filter_isSkip hp
  returns := hp.returns

/-- Work of expressions, and then the end of the block. -/
theorem turns_passes (hs : s.Sane) {b₁ b₂ : Builder} (ha : Advances s.builder b₁) {c : BlockId}
    (hc : b₁.current = some c) {e : Ir.Terminator} (ht : Turns b₁ b₂ e c)
    (he : ∀ i ∈ e.successors, s.Target i) (hd : e = .unreachable → ¬Quiet env s.scope log)
    (hp : Plain log) : Passes env false true [] s { s with builder := b₂ } log where
  builds := by
    have hlt : ∀ i ∈ e.successors, i.index < b₁.function.blocks.size :=
      fun i hi => Nat.lt_of_lt_of_le (hs.loops i (he i hi)).1 ha.size
    refine (ha.builds.imp (K := s.Target) (by simp) (fun _ hi => hi) id).andThen
      (ht.builds ha.opened hc hlt hd) (fun i _ hi => he i hi)
      (fun i _ hi => path_of_ended ha.ended (hs.loops i (he i hi)).2) (fun i hi hne => absurd hi hne)
      (by simp) id id
  loops := rfl
  outer := rfl
  height := rfl
  live := by
    have hend : b₂.function.ending c = some e := by rw [ht.ending hc, if_pos rfl]
    simpa using Builder.not_reached_of_ended ht.current hend
  clean := Quiet.toClean
  running := rfl
  skips := filter_isSkip hp
  returns := hp.returns

/-! ### Declarations and assignments -/

theorem declare?_frames {scope scope' : Scope} {name : String} {binding : Binding}
    (h : scope.declare? name binding = some scope') : ∃ frame rest, scope.frames = frame :: rest ∧
      scope'.frames = ((name, binding) :: frame) :: rest := by
  obtain ⟨frames⟩ := scope
  cases frames with
  | nil => simp [Scope.declare?] at h
  | cons frame rest =>
    simp only [Scope.declare?] at h
    split at h
    · cases h
    · cases h
      exact ⟨frame, rest, rfl, rfl⟩

theorem Clean.declare {scope scope' : Scope} {name : String} {binding : Binding} (hc : Clean env scope)
    (h : scope.declare? name binding = some scope') (hb : binding ≠ .poisoned) : Clean env scope' := by
  obtain ⟨frame, rest, hf, hf'⟩ := declare?_frames h
  refine ⟨fun f hmem e he => ?_, hc.symbols⟩
  rw [hf'] at hmem
  rcases List.mem_cons.1 hmem with rfl | hmem
  · rcases List.mem_cons.1 he with rfl | he
    · exact hb
    · exact hc.names frame (by simp [hf]) e he
  · exact hc.names f (by simp [hf, hmem]) e he

/-- A name is bound in the innermost scope, or reported. -/
theorem bind_moves (s : State) (what name : String) (binding : Binding) (span : Span) :
    ∃ scope log, (Lower.bind what name binding span).Moves s () { s with scope } log ∧ Plain log ∧
      scope.frames.tail = s.scope.frames.tail ∧ scope.frames.length = s.scope.frames.length ∧
      (log = [] → s.scope.declare? name binding = some scope) := by
  cases hd : s.scope.declare? name binding with
  | none =>
    refine ⟨s.scope, [Problem.alreadyDefined span what name], fun q r => ?_, ?_, rfl, rfl, by simp⟩
    · simp only [Lower.bind, bind, StateT.bind, get, getThe, MonadStateOf.get, StateT.get, pure, hd]
      rfl
    · rintro d hd
      rw [List.mem_singleton.1 hd]
      rfl
  | some scope =>
    obtain ⟨frame, rest, hf, hf'⟩ := declare?_frames hd
    refine ⟨scope, [], fun q r => ?_, .nil, by rw [hf, hf']; rfl, by rw [hf, hf']; rfl, fun _ => rfl⟩
    simp only [Lower.bind, bind, StateT.bind, get, getThe, MonadStateOf.get, StateT.get, pure, hd]
    rfl

/-- A value goes into a slot of its own, under a name of the innermost scope. -/
theorem slot_moves (env : Env) (h : s.builder.Opened) (what name : String) (v : ValueId) (t : Ty)
    (span : Span) : ∃ b scope log,
      (do
        let slot ← Lower.emit (Emit.entryAlloca (env.ir t) name)
        Lower.emit (Emit.store v slot)
        Lower.bind what name (.slot slot t) span : Lower Unit).Moves s ()
          { s with builder := b, scope } log ∧
      Advances s.builder b ∧ Plain log ∧ scope.frames.tail = s.scope.frames.tail ∧
      scope.frames.length = s.scope.frames.length ∧ (log = [] → ∃ slot b₁,
        Emit.entryAlloca (env.ir t) name s.builder = (slot, b₁) ∧ Emit.store v slot b₁ = ((), b) ∧
        s.scope.declare? name (.slot slot t) = some scope) := by
  obtain ⟨slot, b₁, hs₁, a₁⟩ := (entryAlloca_inline (env.ir t) name).isAdvance.steps h
  obtain ⟨⟨⟩, b₂, hs₂, a₂⟩ := (store_inline v slot).isAdvance.steps a₁.opened
  obtain ⟨scope, log, hm, hp, ho, hh, hd⟩ :=
    bind_moves { s with builder := b₂ } what name (.slot slot t) span
  refine ⟨b₂, scope, log, ?_, a₁.trans a₂, hp, ho, hh, fun hlog => ⟨slot, b₁, hs₁, hs₂, hd hlog⟩⟩
  exact (Lower.moves_emit hs₁).bind ((Lower.moves_emit (s := { s with builder := b₁ }) hs₂).bind hm)

/-- A value goes into a slot of its own; a name without a value is poisoned. -/
theorem bindValue_moves (env : Env) (h : s.builder.Opened) (name : String) (v : Option Typed)
    (span : Span) :
    ∃ b scope log, (bindValue env name v span).Moves s () { s with builder := b, scope } log ∧
      Advances s.builder b ∧ Plain log ∧ scope.frames.tail = s.scope.frames.tail ∧
      scope.frames.length = s.scope.frames.length ∧ ∀ w, v = some w → log = [] → ∃ slot b₁,
        Emit.entryAlloca (env.ir w.ty) name s.builder = (slot, b₁) ∧
        Emit.store w.value slot b₁ = ((), b) ∧
        s.scope.declare? name (.slot slot w.ty) = some scope := by
  cases v with
  | none =>
    obtain ⟨scope, log, hm, hp, ho, hh, -⟩ := bind_moves s "variable" name .poisoned span
    exact ⟨s.builder, scope, log, hm, .refl h, hp, ho, hh, by simp⟩
  | some v =>
    obtain ⟨b, scope, log, hm, ha, hp, ho, hh, hd⟩ := slot_moves env h "variable" name v.value v.ty span
    refine ⟨b, scope, log, hm, ha, hp, ho, hh, ?_⟩
    rintro w ⟨⟩
    exact hd

/-- A declaration, given how its initial value comes about: without errors there is one, and the rules say
so. -/
theorem declare_passes (hr : s.builder.Reached) {x : Lower (Option Typed)}
    {Q : Option Typed → Builder → List Diag → Prop} (hx : x.Works s.scope s.builder Q) (name : String)
    (span : Span) {st : Stmt} (hrule : ∀ {v b₁ log}, Quiet env s.scope log → Plain log → Q v b₁ log →
      ∃ w, v = some w ∧ ∀ {slot b₂ b' scope'}, Emit.entryAlloca (env.ir w.ty) name b₁ = (slot, b₂) →
        Emit.store w.value slot b₂ = ((), b') →
        s.scope.declare? name (.slot slot w.ty) = some scope' →
        LowersStmt env s.loops st s.scope s.builder scope' b') :
    ∃ s' log, (x >>= fun v => bindValue env name v span).Moves s () s' log ∧
      Passes env true true [] s s' log ∧ (Quiet env s.scope log →
        LowersStmt env s.loops st s.scope s.builder s'.scope s'.builder) := by
  obtain ⟨v, b₁, l₁, hy₁, hp₁, a₁, hq⟩ := hx
  obtain ⟨b₂, scope, l₂, hm₂, a₂, hp₂, ho, hh, hd⟩ :=
    bindValue_moves env (s := { s with builder := b₁ }) a₁.opened name v span
  -- without errors there is a value, and the name is new
  have hbound : Quiet env s.scope (l₁ ++ l₂) → ∃ slot w b₃, v = some w ∧
      Emit.entryAlloca (env.ir w.ty) name b₁ = (slot, b₃) ∧ Emit.store w.value slot b₃ = ((), b₂) ∧
      s.scope.declare? name (.slot slot w.ty) = some scope := by
    intro hquiet
    obtain ⟨w, rfl, -⟩ := hrule hquiet.left hp₁ hq
    obtain ⟨slot, b₃, ha, hs, hdecl⟩ := hd w rfl ((hquiet.right hquiet.toClean).eq_nil hp₂)
    exact ⟨slot, w, b₃, rfl, ha, hs, hdecl⟩
  refine ⟨{ s with builder := b₂, scope }, l₁ ++ l₂, hy₁.moves.bind hm₂,
    advances_passes hr (a₁.trans a₂) (hp₁.append hp₂) ho hh fun hquiet => ?_, fun hquiet => ?_⟩
  · obtain ⟨slot, w, b₃, -, -, -, hdecl⟩ := hbound hquiet
    exact hquiet.declare hdecl (by simp)
  · obtain ⟨slot, w, b₃, hv, ha, hs, hdecl⟩ := hbound hquiet
    obtain ⟨w', hv', hlower⟩ := hrule hquiet.left hp₁ hq
    obtain rfl : w' = w := Option.some.inj (hv'.symm.trans hv)
    exact hlower ha hs hdecl

theorem lowerInferred_judged {b : Builder} {scope : Scope} (h : b.Opened) (name : String)
    {o : Operand} (ho : o.Sound env) :
    (lowerInferred name o).Judged scope b (Blamed env scope o.expr) fun v b' =>
      Lowers env scope o.expr none b v b' ∧ v.ty ≠ .null := by
  refine Judged.bind (ho.judged none h) fun v b₁ a₁ hv => ?_
  split
  · exact Attempt.judged_reject a₁.opened rfl
  · rename_i ht
    exact .pure a₁.opened ⟨hv, ht⟩

theorem lowerVar_passes (hs : s.Sane) (hr : s.builder.Reached) (name : String)
    (declared : Option TypeExpr) {o : Operand} (ho : o.Sound env) (span : Span) :
    ∃ s' log, (lowerVar env name declared o span).Moves s () s' log ∧
      Passes env true true [] s s' log ∧ (Quiet env s.scope log →
        LowersStmt env s.loops (.var span name declared o.expr) s.scope s.builder s'.scope
          s'.builder) := by
  have hopen := hs.placed.opened hr
  cases declared with
  | none =>
    refine declare_passes hr (lowerInferred_judged hopen name ho).run name span ?_
    intro v b₁ log hq hp hv
    obtain ⟨w, rfl, hw, ht⟩ := hq.verdict hp hv
    exact ⟨w, rfl, fun ha hs hd => .varInferred hw ht ha hs hd⟩
  | some t =>
    cases hres : env.tables.resolve t with
    | ok target =>
      have hresolve : Attempt.resolve env t span = pure target := by simp [Attempt.resolve, hres]
      simp only [lowerVar, hresolve]
      refine declare_passes hr (lowerAs_judged hopen ho target _).run name span ?_
      intro v b₁ log hq hp hv
      obtain ⟨w, rfl, u, hu, rfl, ht⟩ := hq.verdict hp hv
      exact ⟨_, rfl, fun ha hs hd => .var hres hu ht ha hs hd⟩
    | error unknown =>
      have hresolve : Attempt.resolve env t span =
          Attempt.reject (Problem.unknownType span unknown) := by simp [Attempt.resolve, hres]
      simp only [lowerVar, hresolve]
      -- the type is reported first, so this is not a case without errors
      have hx : (do
          Lower.report (Problem.unknownType span unknown)
          o.visit
          pure none : Lower (Option Typed)).Works s.scope s.builder fun _ _ log => log ≠ [] := by
        refine Lower.Works.bind (Lower.works_report hopen rfl) ?_
        rintro - b₁ _ a₁ ⟨rfl, -⟩
        refine Lower.Works.bind (visit_works a₁.opened ho) fun _ b₂ _ a₂ _ => ?_
        exact .pure a₂.opened (by simp)
      refine declare_passes hr hx name span ?_
      intro v b₁ log hq hp hne
      exact absurd (hq.eq_nil hp) hne

/-! ### Assignments -/

/-- Work of expressions whose rules hold where nothing is wrong. -/
theorem works_passes (hr : s.builder.Reached) {α : Type} {x : Lower α}
    {Q : α → Builder → List Diag → Prop} (hx : x.Works s.scope s.builder Q) {st : Stmt}
    (hrule : ∀ {a b log}, Quiet env s.scope log → Plain log → Q a b log →
      LowersStmt env s.loops st s.scope s.builder s.scope b) :
    ∃ s' log, (x >>= fun _ => pure ()).Moves s () s' log ∧ Passes env true true [] s s' log ∧
      (Quiet env s.scope log →
        LowersStmt env s.loops st s.scope s.builder s'.scope s'.builder) := by
  obtain ⟨a, b, log, hy, hp, ha, hq⟩ := hx
  refine ⟨{ s with builder := b }, log, ?_, advances_passes hr ha hp rfl rfl Quiet.toClean,
    fun hquiet => hrule hquiet hp hq⟩
  rw [← List.append_nil log]
  exact hy.moves.bind (fun _ _ => rfl)

theorem lowerLocalAssign_works (h : s.builder.Opened) (name : String) (span : Span) {o : Operand}
    (ho : o.Sound env) (span' : Span) :
    (lowerLocalAssign name span o).run.Works s.scope s.builder fun _ b log =>
      Quiet env s.scope log → Plain log →
        LowersStmt env s.loops (.assign span' (.ident span name) o.expr) s.scope s.builder s.scope b := by
  refine Attempt.traces_get_bind (fun _ => rfl) ?_
  dsimp only [State.plain]
  split
  · rename_i slot t hn
    have hx : Judged (o.lowerAs t ("assignment to `" ++ name ++ "`") >>= fun v =>
        liftM (Lower.emit (Emit.store v.value slot))) s.scope s.builder (Blamed env s.scope o.expr)
        fun _ b => LowersStmt env s.loops (.assign span' (.ident span name) o.expr) s.scope s.builder
          s.scope b := by
      refine Judged.bind (lowerAs_judged h ho t _) ?_
      rintro _ b₁ a₁ ⟨v, hv, rfl, ht⟩
      refine Attempt.lift_judged ((Lower.works_emit a₁.opened (store_inline ..).isAdvance).imp ?_)
      rintro ⟨⟩ b₂ _ - ⟨rfl, hs⟩
      exact ⟨rfl, .assignLocal hn hv ht hs⟩
    refine Lower.Works.imp hx.run fun r b log _ hv hq hp => ?_
    obtain ⟨-, -, hl⟩ := hq.verdict hp hv
    exact hl
  · rename_i hn
    refine Lower.Traces.map (Lower.Works.imp (visit_works h ho) fun _ b log _ _ hq => ?_)
    exact absurd hn (hq.lookup? name)
  · refine Attempt.works_bind (Lower.works_report h rfl) ?_
    rintro - b₁ _ a₁ ⟨rfl, -⟩
    refine Lower.Traces.map (Lower.Works.imp (visit_works a₁.opened ho) fun _ b log _ _ hq hp => ?_)
    exact absurd (hq.eq_nil hp) (by simp)

theorem lowerFieldAssign_works (h : s.builder.Opened) {r o : Operand} (hr : r.Sound env) (name : String)
    (ho : o.Sound env) (span span' : Span) :
    (lowerFieldAssign env r name o span).run.Works s.scope s.builder fun _ b log =>
      Quiet env s.scope log → Plain log →
        LowersStmt env s.loops (.assign span (.field span' r.expr name) o.expr) s.scope s.builder s.scope
          b := by
  refine Attempt.works_bind (fieldAddress_judged h hr name span).run fun p b₁ log₁ a₁ hv₁ => ?_
  cases p with
  | none =>
    refine Lower.Traces.map (Lower.Works.imp (visit_works a₁.opened ho) fun _ b log _ _ hq hp => ?_)
    have hp₁ : Plain log₁ := fun d hd => hp d (by simp [hd])
    exact absurd hv₁ (hq.left.not_none hp₁)
  | some p =>
    obtain ⟨rfl, recv, b₀, struct, position, hrecv, hf, hptr⟩ := hv₁
    refine Lower.Works.bind (lowerAs_judged a₁.opened ho p.2 _).run fun v b₂ log₂ a₂ hv₂ => ?_
    cases v with
    | none =>
      refine .pure a₂.opened fun hq hp => ?_
      rw [List.append_nil] at hq hp
      exact absurd hv₂ (Quiet.not_none hq hp)
    | some v =>
      obtain ⟨rfl, w, hw, rfl, ht⟩ := hv₂
      refine Lower.Traces.map ((Lower.works_emit a₂.opened (store_inline ..).isAdvance).imp ?_)
      rintro ⟨⟩ b₃ _ - ⟨rfl, hst⟩ - -
      exact .assignField hrecv hf hptr hw ht hst

theorem lowerIndexAssign_works (h : s.builder.Opened) {r i o : Operand} (hr : r.Sound env)
    (hi : i.Sound env) (ho : o.Sound env) (span span' : Span) :
    (lowerIndexAssign env r i o span).run.Works s.scope s.builder fun _ b log =>
      Quiet env s.scope log → Plain log →
        LowersStmt env s.loops (.assign span (.index span' r.expr i.expr) o.expr) s.scope s.builder
          s.scope b := by
  have hboth : ∀ o' ∈ [i, o], o'.Sound env := by
    rintro o' ho'
    rcases List.mem_cons.1 ho' with rfl | ho'
    · exact hi
    · rw [List.mem_singleton.1 ho']
      exact ho
  refine Attempt.works_bind (hr.judged none h).run fun recv b₁ log₁ a₁ hv₁ => ?_
  cases recv with
  | none =>
    refine Lower.Works.imp (abandon_judged (P := fun (_ : Unit) _ => False) a₁.opened
      fun h => visitAll_works h hboth).run fun r b log _ _ hq hp => ?_
    have hp₁ : Plain log₁ := fun d hd => hp d (by simp [hd])
    exact absurd hv₁ (hq.left.not_none hp₁)
  | some recv =>
    obtain ⟨rfl, hrecv⟩ := hv₁
    dsimp only
    split
    · refine Lower.Works.imp (reject_judged (B := False) (P := fun (_ : Unit) _ => False) a₁.opened rfl
        fun h => visitAll_works h hboth).run fun r b log _ hv hq hp => ?_
      cases r with
      | none => exact absurd (Quiet.eq_nil hq hp) (hv.resolve_right id)
      | some _ => exact absurd hv.2 id
    · rename_i elem ht
      refine Lower.Works.bind (lowerIndexAndElement_judged a₁.opened hi ho elem _).run
        fun p b₂ log₂ a₂ hv₂ => ?_
      cases p with
      | none =>
        refine .pure a₂.opened fun hq hp => ?_
        simp only [List.nil_append, List.append_nil] at hq hp
        rcases hv₂ with hne | hb | hb
        · exact absurd (hq.eq_nil hp) hne
        · exact absurd hb (hq.not_blamed _)
        · exact absurd hb (hq.not_blamed _)
      | some p =>
        obtain ⟨rfl, b₀, w, hx, hw, hval, hty⟩ := hv₂
        refine Attempt.works_bind (vectorShape_works a₂.opened elem) ?_
        rintro _ _ _ - ⟨rfl, rfl, rfl⟩
        refine Lower.Traces.map ((Lower.works_emit a₂.opened (VectorShape.setAt_advance ..)).imp ?_)
        rintro ⟨⟩ b₃ _ - ⟨rfl, hst⟩ - -
        rw [← hval] at hst
        exact .assignIndex hrecv ht hx hw hty hst

theorem lowerAssign_passes (henv : env.Shaped) (hs : s.Sane) (hr : s.builder.Reached) (target : Expr)
    {o : Operand} (ho : o.Sound env) (span : Span) :
    ∃ s' log, ((lowerAssign env target o span).run >>= fun _ => pure ()).Moves s () s' log ∧
      Passes env true true [] s s' log ∧ (Quiet env s.scope log →
        LowersStmt env s.loops (.assign span target o.expr) s.scope s.builder s'.scope s'.builder) := by
  have hopen := hs.placed.opened hr
  have hsub := fun e => operand_sound henv e
  unfold lowerAssign
  split
  · exact works_passes hr (lowerLocalAssign_works hopen _ _ ho span) fun hq hp hl => hl hq hp
  · exact works_passes hr (lowerFieldAssign_works hopen (hsub _) _ ho span _) fun hq hp hl => hl hq hp
  · exact works_passes hr (lowerIndexAssign_works hopen (hsub _) (hsub _) ho span _)
      fun hq hp hl => hl hq hp
  · have hx : (liftM (Lower.report (Problem.invalidAssignTarget target.span)) >>= fun _ =>
        liftM o.visit : Attempt Unit).run.Works s.scope s.builder fun _ _ log => log ≠ [] := by
      refine Attempt.works_bind (Lower.works_report hopen rfl) ?_
      rintro - b₁ _ a₁ ⟨rfl, -⟩
      exact Lower.Traces.map (Lower.Works.imp (visit_works a₁.opened ho) fun _ _ _ _ _ => by simp)
    exact works_passes hr hx fun hq hp hne => absurd (hq.eq_nil hp) hne

theorem visit_passes (hs : s.Sane) (hr : s.builder.Reached) {o : Operand} (ho : o.Sound env)
    (span : Span) :
    ∃ s' log, o.visit.Moves s () s' log ∧ Passes env true true [] s s' log ∧
      (Quiet env s.scope log →
        LowersStmt env s.loops (.expr span o.expr) s.scope s.builder s'.scope s'.builder) := by
  refine works_passes hr (ho.judged none (hs.placed.opened hr)).run fun hq hp hv => ?_
  obtain ⟨v, -, hv⟩ := hq.verdict hp hv
  exact .expr hv

/-! ### Conditions, returns and loop exits -/

theorem lowerCondition_works {b : Builder} (scope : Scope) (h : b.Opened) {o : Operand}
    (ho : o.Sound env) (what : String) : (lowerCondition o what).Works scope b fun c b' log =>
      Quiet env scope log → Plain log →
        ∃ v, Lowers env scope o.expr (some .bool) b v b' ∧ v.ty = .bool ∧ v.value = c := by
  refine Lower.Works.bind (ho.judged _ h).run fun v b₁ log₁ a₁ hv => ?_
  cases v with
  | none =>
    refine (Lower.works_emit a₁.opened (constBool_inline _).isAdvance).imp fun _ _ _ _ hr hq hp => ?_
    rw [hr.1, List.append_nil] at hq hp
    exact absurd hv (hq.not_none hp)
  | some v =>
    obtain ⟨rfl, hv⟩ := hv
    dsimp only
    split
    · rename_i ht
      exact .pure a₁.opened fun _ _ => ⟨v, hv, ht, rfl⟩
    · refine Lower.Works.bind (Lower.works_report a₁.opened rfl) ?_
      rintro - b₂ _ a₂ ⟨rfl, -⟩
      refine (Lower.works_emit a₂.opened (constBool_inline _).isAdvance).imp fun _ _ _ _ hr hq hp => ?_
      exact absurd (hq.eq_nil hp) (by simp)

/-- Ending the current block after some work of expressions. -/
theorem terminate_passes (env : Env) (log : List Diag) (hs : s.Sane) {b : Builder} (ha : Advances s.builder b) {e : Emit Unit}
    {t : Ir.Terminator} (he : e = Emit.terminate t) (htargets : ∀ i ∈ t.successors, s.Target i)
    (hd : t = .unreachable → ¬Quiet env s.scope log) (hp : Plain log) :
    ∃ b', e b = ((), b') ∧ Passes env false true [] s { s with builder := b' } log := by
  obtain ⟨c, hc, -⟩ := ha.opened.position
  have ht := terminate_turns ha.opened hc t
  subst he
  exact ⟨_, rfl, turns_passes hs ha hc ht htargets hd hp⟩

theorem lowerLoopExit_passes (hs : s.Sane) (hr : s.builder.Reached) (keyword : String)
    {exit : LoopTargets → BlockId} (he : ∀ t, exit t = t.test ∨ exit t = t.stop) (span : Span)
    {st : Stmt} (hrule : ∀ {t loops b'}, s.loops = t :: loops → Emit.br (exit t) s.builder = ((), b') →
      LowersStmt env s.loops st s.scope s.builder s.scope b') :
    ∃ s' log, (lowerLoopExit keyword exit span).Moves s () s' log ∧
      Passes env s.loops.isEmpty true [] s s' log ∧ (Quiet env s.scope log →
        LowersStmt env s.loops st s.scope s.builder s'.scope s'.builder) := by
  have hopen := hs.placed.opened hr
  cases hl : s.loops with
  | nil =>
    have hp : Plain [Problem.outsideLoop span keyword] := by
      rintro d hd
      rw [List.mem_singleton.1 hd]
      rfl
    refine ⟨s, [Problem.outsideLoop span keyword], fun q r => ?_,
      advances_passes hr (.refl hopen) hp rfl rfl Quiet.toClean, fun hq => ?_⟩
    · simp only [lowerLoopExit, bind, StateT.bind, get, getThe, MonadStateOf.get, StateT.get, pure, hl]
      rfl
    · exact absurd (hq.eq_nil hp) (by simp)
  | cons t rest =>
    obtain ⟨b', hb, hpass⟩ := terminate_passes env []
      (e := Emit.br (exit t)) hs (.refl hopen) rfl (fun i hi => ⟨t, by simp [hl], by
        have : i = exit t := by simpa [Ir.Terminator.successors] using hi
        rw [this]
        exact he t⟩) (by simp) .nil
    refine ⟨{ s with builder := b' }, [], fun q r => ?_, hpass, fun _ => ?_⟩
    · simp only [lowerLoopExit, bind, StateT.bind, get, getThe, MonadStateOf.get, StateT.get, pure, hl]
      rw [← hl]
      exact Lower.moves_emit hb q r
    · have := hrule hl hb
      rw [hl] at this
      exact this

theorem lowerReturn_passes (hs : s.Sane) (hr : s.builder.Reached) {value : Option Operand}
    (hv : ∀ o, value = some o → o.Sound env) (span : Span) :
    ∃ s' log, (lowerReturn env value span).Moves s () s' log ∧ Passes env false true [] s s' log ∧
      (Quiet env s.scope log → LowersStmt env s.loops (.ret span (value.map (·.expr))) s.scope s.builder
        s'.scope s'.builder) := by
  have hopen := hs.placed.opened hr
  cases value with
  | none =>
    simp only [lowerReturn]
    split
    · rename_i hu
      obtain ⟨b', hb, hpass⟩ := terminate_passes env []
        (e := Emit.retVoid) hs (.refl hopen) rfl (by simp [Ir.Terminator.successors]) (by simp) .nil
      exact ⟨_, [], Lower.moves_emit hb, hpass, fun _ => .ret hu hb⟩
    · have hp : Plain [Diagnostic.typeMismatch span env.returnType.render "()"
          ("return of `" ++ env.functionName ++ "`")] := by
        rintro d hd
        rw [List.mem_singleton.1 hd]
        rfl
      have hquiet : ¬Quiet env s.scope _ := fun hq => absurd (hq.eq_nil hp) (by simp)
      obtain ⟨b', hb, hpass⟩ := terminate_passes env _ (e := Emit.unreachable) hs (.refl hopen) rfl
        (by simp [Ir.Terminator.successors]) (fun _ => hquiet) hp
      refine ⟨_, _, ?_, hpass, fun hq => absurd hq hquiet⟩
      exact (Lower.yields_report _).moves.bind (Lower.moves_emit hb)
  | some o =>
    simp only [lowerReturn]
    have hx : Judged (o.lowerAs env.returnType ("return value of `" ++ env.functionName ++ "`")) s.scope
        s.builder _ _ := lowerAs_judged hopen (hv o rfl) _ _
    obtain ⟨v, b₁, log, hy, hp, a₁, hv₁⟩ := hx.run
    cases v with
    | none =>
      have hquiet : ¬Quiet env s.scope log := fun hq => hq.not_none hp hv₁
      obtain ⟨b', hb, hpass⟩ := terminate_passes env log
        (e := Emit.unreachable) hs a₁ rfl (by simp [Ir.Terminator.successors]) (fun _ => hquiet) hp
      refine ⟨_, log, ?_, hpass, fun hq => absurd hq hquiet⟩
      rw [← List.append_nil log]
      exact hy.moves.bind (Lower.moves_emit (s := { s with builder := b₁ }) hb)
    | some v =>
      obtain ⟨rfl, w, hw, rfl, ht⟩ := hv₁
      have hend : ∃ t, (if env.returnType.isUnit then Emit.retVoid else Emit.ret w.value) =
          Emit.terminate t ∧ t.successors = [] ∧ t ≠ .unreachable := by
        split
        · exact ⟨_, rfl, rfl, by simp⟩
        · exact ⟨_, rfl, rfl, by simp⟩
      obtain ⟨t, hterm, hsucc, hne⟩ := hend
      obtain ⟨b', hb, hpass⟩ := terminate_passes env [] hs a₁ hterm
        (by simp [hsucc]) (fun he => absurd he hne) hp
      exact ⟨_, [], hy.moves.bind (Lower.moves_emit (s := { s with builder := b₁ }) hb), hpass,
        fun _ => .retValue hw ht hb⟩

end

end BlockForge.Lowering
