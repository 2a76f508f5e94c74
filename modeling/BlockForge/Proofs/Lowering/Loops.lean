import BlockForge.Proofs.Lowering.Branches

/-!
# Loops and lists

A loop makes the blocks of its test, its body and its end before it is lowered, so its exits lead to
blocks that control gets to. With that every statement, and so every list, is lowered by its structure.
-/

namespace BlockForge.Lowering

open Diagnostic (Diag Queue)
open Ir (BlockId Builder Emit ValueId)
open Ir.Emit
open Source (Chain Expr Span Stmt Visit completesAll properAll runStarts runsOn visitsAll)
open StateM
open Lower (Matches Moves)

section

variable {env : Env} {s s' : State} {log : List Diag}

/-! ### Loops -/

/-- The test of a loop leads to its body and to its end. -/
structure Tested (s b : Builder) (test start stop : BlockId) : Prop where
  reached : b.Reached
  current : b.current = some start
  old : s.function.blocks.size ≤ test.index ∧ s.function.blocks.size ≤ stop.index
  lt : test.index < b.function.blocks.size ∧ stop.index < b.function.blocks.size
  paths : b.function.Path Ir.Id.entry test ∧ b.function.Path Ir.Id.entry stop
  ending : b.function.ending stop = none
  apart : stop ≠ start
  builds : ∀ {C E : Prop}, Builds (fun _ => False) (fun i => i = start ∨ i = stop) C E s b

/-- The blocks of a loop, up to its test. -/
theorem loop_blocks (hs : s.Sane) (hr : s.builder.Reached) : ∃ test start stop b₁ b₂ b₃ b₄,
    Emit.appendBlock "while.cond" s.builder = (test, b₁) ∧
    Emit.appendBlock "while.body" b₁ = (start, b₂) ∧ Emit.appendBlock "while.end" b₂ = (stop, b₃) ∧
    Emit.br test b₃ = ((), b₄) ∧ Makes 1 s.builder b₁ ∧ Makes 1 b₁ b₂ ∧ Makes 1 b₂ b₃ ∧
    Spreads (· = test) b₃ b₄ ∧
    test.index = s.builder.function.blocks.size ∧ start.index = s.builder.function.blocks.size + 1 ∧
    stop.index = s.builder.function.blocks.size + 2 ∧
    b₄.function.blocks.size = s.builder.function.blocks.size + 3 ∧
    b₄.function.Path Ir.Id.entry test ∧
    (∀ i : BlockId, s.builder.function.blocks.size ≤ i.index → b₄.function.ending i = none) ∧
    ∀ {C E : Prop}, Builds (fun _ => False) (fun i => i = test ∨ i = start ∨ i = stop) C E s.builder
      b₄ := by
  have hopen := hs.placed.opened hr
  obtain ⟨c, hc, -, hp⟩ := hr.position
  obtain ⟨test, b₁, htest, hi₁, h₁⟩ : ∃ test b₁, Emit.appendBlock "while.cond" s.builder = (test, b₁) ∧
      test.index = s.builder.function.blocks.size ∧ Makes 1 s.builder b₁ :=
    ⟨_, _, rfl, appendBlock_makes hopen.valid _⟩
  obtain ⟨start, b₂, hstart, hi₂, h₂⟩ : ∃ start b₂, Emit.appendBlock "while.body" b₁ = (start, b₂) ∧
      start.index = b₁.function.blocks.size ∧ Makes 1 b₁ b₂ :=
    ⟨_, _, rfl, appendBlock_makes (h₁.opened hopen).valid _⟩
  obtain ⟨stop, b₃, hstop, hi₃, h₃⟩ : ∃ stop b₃, Emit.appendBlock "while.end" b₂ = (stop, b₃) ∧
      stop.index = b₂.function.blocks.size ∧ Makes 1 b₂ b₃ :=
    ⟨_, _, rfl, appendBlock_makes (h₂.opened (h₁.opened hopen)).valid _⟩
  have hm : Makes 3 s.builder b₃ := (h₁.trans h₂).trans h₃
  have ho₃ := hm.opened hopen
  have hc₃ : b₃.current = some c := hm.current.trans hc
  obtain ⟨b₄, hbr, h₄⟩ : ∃ b₄, Emit.br test b₃ = ((), b₄) ∧ Turns b₃ b₄ (.br test) c :=
    ⟨_, rfl, terminate_turns ho₃ hc₃ _⟩
  have hs₁ := h₁.size
  have hs₂ := h₂.size
  have hs₃ := h₃.size
  have hs₄ := h₄.size
  have hsucc : ∀ i ∈ (Ir.Terminator.br test).successors, i = test := by simp [Ir.Terminator.successors]
  have hlt : ∀ i ∈ (Ir.Terminator.br test).successors, i.index < b₃.function.blocks.size := by
    intro i hi
    rw [hsucc i hi]
    omega
  have hcl : c.index < s.builder.function.blocks.size := by
    obtain ⟨d, hd, hlt, -⟩ := hopen.position
    obtain rfl : c = d := Option.some.inj (hc.symm.trans hd)
    exact hlt
  have hnew : ∀ i : BlockId, s.builder.function.blocks.size ≤ i.index → b₄.function.ending i = none := by
    intro i hi
    rw [h₄.ending hc₃, if_neg (by rintro rfl; omega), hm.ending]
    exact Ir.Function.ending_eq_none hi
  have hp₃ : b₃.function.Path Ir.Id.entry c := by
    simp only [Ir.Function.Path, Ir.Function.succs, hm.ending]
    exact hp
  refine ⟨test, start, stop, b₁, b₂, b₃, b₄, htest, hstart, hstop, hbr, h₁, h₂, h₃,
    (h₄.spreads ho₃ hc₃ hlt).mono fun i _ hi => hsucc i hi, by omega, by omega, by omega, by omega,
    h₄.path ho₃ hc₃ hp₃ (by simp [Ir.Terminator.successors]), hnew, fun {C E} => ?_⟩
  refine hm.builds.trans (h₄.builds (C := C) (E := E) ho₃ hc₃ hlt (by simp)) (X := (· = test))
    (fun i hi hj => ?_) (fun i _ hj => .inl (hsucc i hj)) ?_ (fun i hi hne => ?_) (by simp) id id
  · rw [hsucc i hj] at hi
    omega
  · rintro i rfl
    exact ⟨hnew i (by omega), .inl (.inl rfl)⟩
  · obtain ⟨hle, hlt⟩ := hi.resolve_left fun hcur => hne (hm.current.trans hcur)
    have : i.index = test.index ∨ i.index = start.index ∨ i.index = stop.index := by omega
    exact this.imp Ir.Id.ext (Or.imp Ir.Id.ext Ir.Id.ext)

/-- The test of a loop, from its first block to the start of the body. -/
theorem loop_test (hs : s.Sane) (hr : s.builder.Reached) {o : Operand} (ho : o.Sound env)
    (what : String) : ∃ (b : Builder) (test start stop : BlockId) (log : List Diag), Plain log ∧
      Tested s.builder b test start stop ∧
      (Quiet env s.scope log → ∃ b₁ b₂ b₃ b₄ b₅ v b₆ b₇,
        Emit.appendBlock "while.cond" s.builder = (test, b₁) ∧
        Emit.appendBlock "while.body" b₁ = (start, b₂) ∧ Emit.appendBlock "while.end" b₂ = (stop, b₃) ∧
        Emit.br test b₃ = ((), b₄) ∧ Emit.positionAt test b₄ = ((), b₅) ∧
        Lowers env s.scope o.expr (some .bool) b₅ v b₆ ∧ v.ty = .bool ∧
        Emit.condBr v.value start stop b₆ = ((), b₇) ∧ Emit.positionAt start b₇ = ((), b)) ∧
      ∀ {f g : BlockId → BlockId → Lower Unit} {t : State} {log' : List Diag},
        (f test stop).Matches (g test stop) { s with builder := b } () t log' →
        (do
          let test ← Lower.emit (Emit.appendBlock "while.cond")
          let start ← Lower.emit (Emit.appendBlock "while.body")
          let stop ← Lower.emit (Emit.appendBlock "while.end")
          Lower.emit (Emit.br test)
          Lower.emit (Emit.positionAt test)
          let c ← lowerCondition o what
          Lower.emit (Emit.condBr c start stop)
          Lower.emit (Emit.positionAt start)
          f test stop : Lower Unit).Matches (do
          let test ← Lower.emit (Emit.appendBlock "while.cond")
          let start ← Lower.emit (Emit.appendBlock "while.body")
          let stop ← Lower.emit (Emit.appendBlock "while.end")
          Lower.emit (Emit.br test)
          Lower.emit (Emit.positionAt test)
          let c ← lowerCondition o what
          Lower.emit (Emit.condBr c start stop)
          Lower.emit (Emit.positionAt start)
          g test stop) s () t (log ++ log') := by
  obtain ⟨test, start, stop, b₁, b₂, b₃, b₄, ht, hst, hsp, hbr, h₁, h₂, h₃, h₄, hi₁, hi₂, hi₃, hsize₄,
    hpath₄, hopen₄, hb₄⟩ := loop_blocks hs hr
  have hlt₄ : test.index < b₄.function.blocks.size := by omega
  have hpos₄ := positionAt_eq hlt₄
  have hb₅ : ∀ {C E : Prop}, Builds (fun _ => False) (fun i => i = test ∨ i = start ∨ i = stop) C E
      s.builder { b₄ with current := some test } := hb₄.moved (by omega) hlt₄
  have hr₅ : ({ b₄ with current := some test } : Builder).Reached :=
    ⟨test, rfl, hopen₄ test (by omega), hpath₄⟩
  have hplaced₅ := (hb₅ (C := True) (E := True)).placed hs.placed
  obtain ⟨v, b₆, log, hy, hp, h₆, hrule⟩ :=
    lowerCondition_works s.scope (hplaced₅.opened hr₅) ho what
  have hsize₆ : s.builder.function.blocks.size + 3 ≤ b₆.function.blocks.size := hsize₄ ▸ h₆.size
  obtain ⟨c, hc, hpc⟩ : ∃ c, b₆.current = some c ∧ b₆.function.Path Ir.Id.entry c := by
    obtain ⟨c, hc, -, hpc⟩ := (Builder.Reached.advances hr₅ h₆).position
    exact ⟨c, hc, hpc⟩
  obtain ⟨b₇, hcond, h₇⟩ : ∃ b₇, Emit.condBr v start stop b₆ = ((), b₇) ∧
      Turns b₆ b₇ (.condBr v start stop) c := ⟨_, rfl, condBr_turns h₆.opened hc v start stop⟩
  have hsize₇ := h₇.size
  have hsucc : ∀ i ∈ (Ir.Terminator.condBr v start stop).successors, i = start ∨ i = stop := by
    simp [Ir.Terminator.successors]
  have hlt₆ : ∀ i ∈ (Ir.Terminator.condBr v start stop).successors,
      i.index < b₆.function.blocks.size := by
    intro i hi
    rcases hsucc i hi with rfl | rfl <;> omega
  -- the condition leaves the body and the end of the loop alone
  have hkeep : ∀ i : BlockId, i = start ∨ i = stop → b₇.function.ending i = none := by
    rintro i hi
    have hle : s.builder.function.blocks.size ≤ i.index := by rcases hi with rfl | rfl <;> omega
    have hlt : i.index < ({ b₄ with current := some test } : Builder).function.blocks.size := by
      show i.index < b₄.function.blocks.size
      rcases hi with rfl | rfl <;> omega
    have hne : ({ b₄ with current := some test } : Builder).current ≠ some i := by
      rintro he
      have : test.index = i.index := congrArg Ir.Id.index (Option.some.inj he)
      rcases hi with rfl | rfl <;> omega
    have hci : i ≠ c := fun he => h₆.spreads.away hlt hne (he ▸ hc)
    rw [h₇.ending hc, if_neg hci, h₆.keep hlt hne]
    exact hopen₄ i hle
  have hpath₇ : ∀ i : BlockId, i = start ∨ i = stop → b₇.function.Path Ir.Id.entry i := by
    intro i hi
    refine h₇.path h₆.opened hc hpc ?_
    simpa [Ir.Terminator.successors] using hi
  have hsp₇ := h₇.spreads h₆.opened hc hlt₆
  have hpos₇ : Emit.positionAt start b₇ = ((), { b₇ with current := some start }) :=
    positionAt_eq (by omega)
  refine ⟨{ b₇ with current := some start }, test, start, stop, log, hp, ?_, fun hq => ?_, fun hk => ?_⟩
  · refine ⟨⟨start, rfl, hkeep _ (.inl rfl), hpath₇ _ (.inl rfl)⟩, rfl, ⟨by omega, by omega⟩, ?_,
      ⟨hsp₇.path (h₆.spreads.path hpath₄), hpath₇ _ (.inr rfl)⟩, hkeep _ (.inr rfl),
      by rintro rfl; omega, fun {C E} => ?_⟩
    · show test.index < b₇.function.blocks.size ∧ stop.index < b₇.function.blocks.size
      omega
    · have hb₆ : Builds (fun _ => False) (fun i => b₆.current = some i ∨ i = start ∨ i = stop) C E
          s.builder b₆ :=
        hb₅.andThen h₆.builds (by simp) (by simp)
          (fun i hi hne => .inr (hi.resolve_left fun he => hne (he ▸ rfl))) (fun i hi => .inl hi) id id
      refine (hb₆.trans (h₇.builds h₆.opened hc hlt₆ (by simp)) (X := fun i => i = start ∨ i = stop)
        (fun i hlt hi => ?_) (fun i _ hi => .inl (hsucc i hi)) (fun i hi => ⟨hkeep i hi, .inl hi⟩)
        (fun i hi hne => hi.resolve_left hne) (by simp) id id).moved (by omega) (by omega)
      rcases hsucc i hi with rfl | rfl <;> omega
  · obtain ⟨w, hw, hty, rfl⟩ := hrule hq hp
    exact ⟨b₁, b₂, b₃, b₄, _, w, b₆, b₇, ht, hst, hsp, hbr, hpos₄, hw, hty, hcond, hpos₇⟩
  · refine (Lower.matches_emit ht h₁.spreads).bind ?_
    refine (Lower.matches_emit (s := { s with builder := b₁ }) hst h₂.spreads).bind ?_
    refine (Lower.matches_emit (s := { s with builder := b₂ }) hsp h₃.spreads).bind ?_
    refine (Lower.matches_emit (s := { s with builder := b₃ }) hbr h₄).bind ?_
    refine (Lower.matches_positionAt (s := { s with builder := b₄ }) hlt₄).bind ?_
    refine ((Lower.Yields.moves (s := { s with builder := { b₄ with current := some test } }) hy).same
      h₆.spreads).bind ?_
    refine (Lower.matches_emit (s := { s with builder := b₆ }) hcond hsp₇).bind ?_
    exact (Lower.matches_positionAt (s := { s with builder := b₇ }) (by
      show start.index < b₇.function.blocks.size
      omega)).bind hk

theorem loop_paths (henv : env.Shaped) {cond : Expr} {body : List Stmt} (hbody : ListPaths env body)
    (span : Span) : StmtPaths env (.loop span cond body) := by
  intro s hs hr
  obtain ⟨b, test, start, stop, log₁, hp₁, ht, hrule₁, hm₁⟩ :=
    loop_test hs hr (operand_sound henv cond) "condition of `while`"
  have hb := ht.builds (C := properAll body = true) (E := ¬Quiet env s.scope log₁)
  let s₁ : State := { s with builder := b, loops := ⟨test, stop⟩ :: s.loops }
  have htarget : ∀ i, s₁.Target i → i = test ∨ i = stop ∨ s.Target i := by
    rintro i ⟨t, ht, hi⟩
    rcases List.mem_cons.1 ht with rfl | ht
    · exact hi.imp id .inl
    · exact .inr (.inr ⟨t, ht, hi⟩)
  have hs₁ : s₁.Sane := by
    refine ⟨hb.placed hs.placed, fun i hi => ?_⟩
    rcases htarget i hi with rfl | rfl | hi
    · exact ⟨ht.lt.1, ht.paths.1⟩
    · exact ⟨ht.lt.2, ht.paths.2⟩
    · obtain ⟨hlt, hp⟩ := hs.loops i hi
      exact ⟨Nat.lt_of_lt_of_le hlt hb.size, hb.path hp⟩
  obtain ⟨s₂, log₂, hpass, hscope, hrule₂, hm₂⟩ := inScope_passes hbody hs₁ ht.reached
  have hs₂ := hs₁.passes hpass
  have hloops : s₂.loops.tail = s.loops := congrArg List.tail hpass.loops
  have hlt₂ : test.index < s₂.builder.function.blocks.size :=
    Nat.lt_of_lt_of_le ht.lt.1 hpass.builds.size
  obtain ⟨b', hbr, hbuild, -, -⟩ := branch_builds (C := properAll body = true)
    (E := ¬Quiet env s.scope log₁) hs₂.placed hpass.live hlt₂
  -- the end of the loop is open all along
  have haway : b.current ≠ some stop := fun he => ht.apart (Option.some.inj (he.symm.trans ht.current))
  have haway₂ : s₂.builder.current ≠ some stop := hpass.builds.away ht.lt.2 haway
  have hlt' : stop.index < s₂.builder.function.blocks.size :=
    Nat.lt_of_lt_of_le ht.lt.2 hpass.builds.size
  have hopen : b'.function.ending stop = none := by
    rw [hbuild.keep hlt' haway₂, hpass.builds.keep ht.lt.2 haway]
    exact ht.ending
  have hlt₃ : stop.index < b'.function.blocks.size := Nat.lt_of_lt_of_le hlt' hbuild.size
  have hpos : Emit.positionAt stop b' = ((), { b' with current := some stop }) := positionAt_eq hlt₃
  refine ⟨{ s₂ with builder := { b' with current := some stop }, loops := s₂.loops.tail }, log₁ ++ log₂,
    ?_, ?_, fun hq => ?_⟩
  · rw [← List.append_nil log₂]
    refine hm₁ ?_
    refine (Lower.matches_modify (s := { s with builder := b }) (f := fun s => { s with
      loops := ⟨test, stop⟩ :: s.loops }) (fun _ _ => rfl) rfl).bind ?_
    refine hm₂ ?_
    refine (Lower.matches_modify (f := fun s => { s with loops := s.loops.tail })
      (fun _ _ => rfl) rfl).bind ?_
    refine (Lower.matches_branch (s := { s₂ with loops := s₂.loops.tail }) hs₂.placed hpass.live hbr
      hbuild.toSpreads).bind ?_
    exact Lower.matches_positionAt (s := { s₂ with builder := b', loops := s₂.loops.tail }) hlt₃
  · refine ⟨?_, hloops, by rw [hscope], by rw [hscope], ?_, ?_, ?_, ?_, fun d hd => ?_⟩
    · have hbody : Builds s.Target (fun i => i = stop ∨ s₂.builder.current = some i)
          (properAll body = true) (¬Quiet env s.scope (log₁ ++ log₂)) s.builder s₂.builder := by
        refine (hb.imp (by simp) (fun _ hi => hi) id).andThen hpass.builds (fun i hlt hi => ?_)
          (fun i _ hi => (hs₁.loops i hi).2) (fun i hi hne => ?_) (fun i hi => .inr hi)
          (fun hn hq => hn hq.left) fun hn hq => hn (hq.right hq.toClean)
        · have := ht.old
          rcases htarget i hi with rfl | rfl | hi
          · omega
          · omega
          · exact hi
        · exact .inl (hi.resolve_left fun he => hne (he ▸ ht.current))
      refine (hbody.andThen hbuild (fun i hlt hi => ?_) (fun i _ hi => ?_) (fun i hi hne => ?_) (by simp)
        id fun hn hq => hn hq.left).moved (Nat.le_trans ht.old.2 (Nat.le_refl _)) hlt₃
      · have := ht.old
        rw [hi.1] at hlt
        omega
      · rw [hi.1]
        exact hpass.builds.path ht.paths.1
      · exact congrArg some (hi.resolve_right hne).symm
    · simp only [Stmt.completes, iff_true]
      exact ⟨stop, rfl, hopen, hbuild.path (hpass.builds.path ht.paths.2)⟩
    · intro hq
      rw [hscope]
      exact hq.toClean
    · exact hpass.running
    · rw [List.filter_append, filter_isSkip hp₁]
      exact hpass.skips
    · exact (List.mem_append.1 hd).elim (hp₁.returns d) (hpass.returns d)
  · obtain ⟨c₁, c₂, c₃, c₄, c₅, v, c₆, c₇, e₁, e₂, e₃, e₄, e₅, hv, hty, e₇, e₈⟩ := hrule₁ hq.left
    obtain ⟨scope', hlower⟩ := hrule₂ (hq.right hq.toClean)
    rw [hscope]
    exact .loop e₁ e₂ e₃ e₄ e₅ hv hty e₇ e₈ hlower (joins_of_branch hpass.live hbr) hpos

theorem block_paths {body : List Stmt} (hbody : ListPaths env body) (span : Span) :
    StmtPaths env (.block span body) := by
  intro s hs hr
  obtain ⟨s', log, hpass, hscope, hrule, hm⟩ := inScope_passes hbody hs hr
  have hmatch := hm (Matches.pure ())
  rw [List.append_nil] at hmatch
  refine ⟨s', log, hmatch, hpass, fun hq => ?_⟩
  obtain ⟨scope', hlower⟩ := hrule hq
  rw [hscope]
  exact .block hlower

/-! ### Lists -/

/-- A dead statement does nothing but start a run of such, or go on with one. -/
theorem reportDead_passes (env : Env) (proper : Bool) (hr : ¬s.builder.Reached) (span : Span) :
    ∃ s' log, (reportDead span).Moves s () s' log ∧
      Passes env false proper [⟨span, true⟩] s s' log ∧ s'.builder = s.builder ∧ s'.scope = s.scope := by
  have hlive : s.builder.Reached ↔ false = true := by simp [hr]
  cases hd : s.deadReported with
  | true =>
    have hmoves : (reportDead span).Moves s () s [] := by
      intro q r
      simp only [reportDead, bind, StateT.bind, get, getThe, MonadStateOf.get, StateT.get, pure, hd]
      rfl
    refine ⟨s, [], hmoves, { Passes.refl hlive with running := ?_, skips := ?_ }, rfl, rfl⟩
    · simp [hd, runsOn]
    · simp [hd, runStarts]
  | false =>
    have hmoves : (reportDead span).Moves s () { s with deadReported := true }
        [Problem.unreachableCode span] := by
      intro q r
      simp only [reportDead, bind, StateT.bind, get, getThe, MonadStateOf.get, StateT.get, pure, hd]
      rfl
    refine ⟨{ s with deadReported := true }, [Problem.unreachableCode span], hmoves, ?_, rfl, rfl⟩
    refine ⟨.refl _, rfl, rfl, rfl, hlive, Quiet.toClean, ?_, ?_, ?_⟩
    · simp [runsOn]
    · rw [hd]
      rfl
    · rintro d hd
      rw [List.mem_singleton.1 hd]
      simp [Problem.unreachableCode, Diagnostic.Diag.labelled]

theorem nil_paths : ListPaths env [] := by
  intro s live hs hl
  refine ⟨s, [], .pure (), ?_, fun _ => .nil⟩
  simp only [completesAll, Bool.and_true, visitsAll]
  exact .refl hl

theorem State.inLoop_eq (h : s'.loops = s.loops) : s'.inLoop = s.inLoop := by
  rw [State.inLoop, h, State.inLoop]

theorem cons_paths {st : Stmt} {rest : List Stmt} (hst : StmtPaths env st) (hrest : ListPaths env rest) :
    ListPaths env (st :: rest) := by
  intro s live hs hl
  cases live with
  | false =>
    have hdead : ¬s.builder.Reached := by simp [hl]
    obtain ⟨s₁, log₁, hm₁, hp₁, hb₁, hscope₁⟩ := reportDead_passes env st.isProper hdead st.span
    have hin := State.inLoop_eq hp₁.loops
    obtain ⟨s₂, log₂, hm₂, hp₂, hrule₂⟩ := hrest s₁ false (hs.passes hp₁) hp₁.live
    rw [hin] at hm₂ hp₂
    rw [hb₁, hscope₁, hp₁.loops] at hrule₂
    refine ⟨s₂, log₁ ++ log₂, ?_, hp₁.trans hs hp₂, fun hq => ?_⟩
    · refine Lower.matches_decide hs.placed hl ?_
      rw [if_pos (by rfl)]
      exact (hm₁.same hp₁.builds.toSpreads).bind hm₂
    · exact .dead hdead (hrule₂ (hq.right hq.toClean))
  | true =>
    have hr := hl.2 rfl
    let s₀ : State := { s with deadReported := false }
    have hp₀ : Passes env true true [⟨st.span, false⟩] s s₀ [] :=
      ⟨.refl _, rfl, rfl, rfl, hl, Quiet.toClean, by simp [runsOn, s₀], rfl, by simp⟩
    have hs₀ := hs.passes hp₀
    obtain ⟨s₁, log₁, hm₁, hp₁, hrule₁⟩ := hst s₀ hs₀ hr
    have hin := State.inLoop_eq hp₁.loops
    obtain ⟨s₂, log₂, hm₂, hp₂, hrule₂⟩ := hrest s₁ (st.completes s₀.inLoop) (hs₀.passes hp₁) hp₁.live
    rw [hin] at hm₂ hp₂
    rw [hp₁.loops] at hrule₂
    refine ⟨s₂, log₁ ++ log₂, ?_, ?_, fun hq => ?_⟩
    · refine Lower.matches_decide hs.placed hl ?_
      rw [if_neg (by simp)]
      exact (Lower.matches_modify (f := fun s => { s with deadReported := false }) (fun _ _ => rfl)
        rfl).bind (hm₁.bind hm₂)
    · have hp := hp₀.trans hs (hp₁.trans hs₀ hp₂)
      rw [Bool.true_and] at hp
      exact hp
    · exact .live hr (hrule₁ hq.left) (hrule₂ (hq.right (hp₁.clean hq.left)))

/-! ### Every statement -/

mutual

theorem stmt_paths (henv : env.Shaped) : ∀ st : Stmt, StmtPaths env st
  | .var span name declared init => fun s hs hr => by
    obtain ⟨s', log, hm, hp, hrule⟩ := lowerVar_passes hs hr name declared (operand_sound henv init) span
    exact ⟨s', log, hm.same hp.builds.toSpreads, hp, hrule⟩
  | .assign span target value => fun s hs hr => by
    obtain ⟨s', log, hm, hp, hrule⟩ :=
      lowerAssign_passes henv hs hr target (operand_sound henv value) span
    exact ⟨s', log, hm.same hp.builds.toSpreads, hp, hrule⟩
  | .expr span e => fun s hs hr => by
    obtain ⟨s', log, hm, hp, hrule⟩ := visit_passes hs hr (operand_sound henv e) span
    exact ⟨s', log, hm.same hp.builds.toSpreads, hp, hrule⟩
  | .cond span chain => cond_paths (chain_paths henv chain) span
  | .loop span cond body => loop_paths henv (list_paths henv body) span
  | .ret span value => fun s hs hr => by
    have hv : ∀ o, value.map (operand env) = some o → o.Sound env := by
      rintro o ho
      obtain ⟨e, -, rfl⟩ := Option.map_eq_some_iff.1 ho
      exact operand_sound henv e
    obtain ⟨s', log, hm, hp, hrule⟩ := lowerReturn_passes hs hr hv span
    have hvalue : (value.map (operand env)).map (·.expr) = value := by cases value <;> rfl
    rw [hvalue] at hrule
    exact ⟨s', log, hm.same hp.builds.toSpreads, hp, hrule⟩
  | .brk span => fun s hs hr => by
    have hexit : ∀ {t loops b'}, s.loops = t :: loops → Emit.br t.stop s.builder = ((), b') →
        LowersStmt env s.loops (.brk span) s.scope s.builder s.scope b' := by
      intro t loops b' hl hb
      rw [hl]
      exact .brk hb
    obtain ⟨s', log, hm, hp, hrule⟩ := lowerLoopExit_passes hs hr "break" (fun _ => .inr rfl) span hexit
    refine ⟨s', log, hm.same hp.builds.toSpreads, ?_, hrule⟩
    rw [Stmt.completes, State.inLoop, Bool.not_not]
    exact hp
  | .cont span => fun s hs hr => by
    have hexit : ∀ {t loops b'}, s.loops = t :: loops → Emit.br t.test s.builder = ((), b') →
        LowersStmt env s.loops (.cont span) s.scope s.builder s.scope b' := by
      intro t loops b' hl hb
      rw [hl]
      exact .cont hb
    obtain ⟨s', log, hm, hp, hrule⟩ := lowerLoopExit_passes hs hr "continue" (fun _ => .inl rfl) span hexit
    refine ⟨s', log, hm.same hp.builds.toSpreads, ?_, hrule⟩
    rw [Stmt.completes, State.inLoop, Bool.not_not]
    exact hp
  | .block span body => block_paths (list_paths henv body) span
termination_by structural st => st

theorem list_paths (henv : env.Shaped) : ∀ body : List Stmt, ListPaths env body
  | [] => nil_paths
  | st :: rest => cons_paths (stmt_paths henv st) (list_paths henv rest)
termination_by structural body => body

theorem chain_paths (henv : env.Shaped) : ∀ chain : Chain, ChainPaths env chain
  | .done => fun _ _ h => by cases h
  | .otherwise body => otherwise_paths (list_paths henv body)
  | .clause _ body rest => clause_paths henv (list_paths henv body) (chain_paths henv rest)
termination_by structural chain => chain

end

end

end BlockForge.Lowering
