import BlockForge.Proofs.Lowering.Loops
import BlockForge.Proofs.Lowering.Program

/-!
# Bodies and programs

A body starts at the entry block of a declared function, where control is, and ends by sealing the blocks
that are left open. It touches no other function, so what holds of each body on its own holds of the
functions of a program.
-/

namespace BlockForge.Ir.Emit

open Builder StateM

/-! ### Sealing -/

/-- Some blocks are ended, unless they have ended already. -/
structure Seals (is : List BlockId) (s b : Builder) : Prop extends Inside s b where
  size : b.function.blocks.size = s.function.blocks.size
  ending : ∀ i : BlockId, b.function.ending i =
    if s.function.ending i = none ∧ i ∈ is then some .unreachable else s.function.ending i
  terminators : s.terminators ≤ b.terminators

theorem sealBlock_seals {b : Builder} (hv : b.func.index < b.module.functions.size) {i : BlockId}
    (hi : i.index < b.function.blocks.size) : (sealBlock i).Sat b fun _ b' => Seals [i] b b' := by
  unfold sealBlock closeBlock
  show Seals [i] b (if b.hasTerminator i = true then _ else _ : Bool × Builder).2
  rw [hasTerminator_eq]
  cases ht : b.function.ending i with
  | some t =>
    refine ⟨.refl b, rfl, fun j => ?_, Nat.le_refl _⟩
    show b.function.ending j = _
    split
    · rename_i hj
      rw [List.mem_singleton.1 hj.2, ht] at hj
      cases hj.1
    · rfl
  | none =>
    have hfun := function_modifyFunction hv (·.setEnding i .unreachable)
    have hin : Inside b (b.modifyFunction (·.setEnding i .unreachable)) :=
      inside_modifyFunction hv rfl fun hi => by
        rw [Function.code_setEnding]
        exact hi
    refine ⟨⟨hin.func, hin.pointerBits, hin.head, hin.functions, hin.others, hin.code, hin.hosts⟩, ?_, fun j => ?_, Nat.le_succ _⟩
    · show (b.modifyFunction (·.setEnding i .unreachable)).function.blocks.size = _
      rw [hfun]
      simp [Function.setEnding]
    · show (b.modifyFunction (·.setEnding i .unreachable)).function.ending j = _
      rw [hfun, Function.ending_setEnding hi]
      by_cases hj : j = i
      · rw [if_pos hj, if_pos ⟨hj ▸ ht, by simp [hj]⟩]
      · rw [if_neg hj, if_neg (by simp [hj])]

theorem Seals.cons {s b d : Builder} {i : BlockId} {is : List BlockId} (h : Seals [i] s b)
    (k : Seals is b d) : Seals (i :: is) s d where
  toInside := h.toInside.trans k.toInside
  size := k.size.trans h.size
  ending j := by
    rw [k.ending, h.ending]
    by_cases hn : s.function.ending j = none
    · by_cases hj : j = i
      · subst hj
        simp [hn]
      · simp [hn, hj]
    · simp [hn]
  terminators := Nat.le_trans h.terminators k.terminators

theorem sealBlocks_seals {b : Builder} (hv : b.func.index < b.module.functions.size)
    (is : List BlockId) (hi : ∀ i ∈ is, i.index < b.function.blocks.size) :
    (Lowering.Lower.sealBlocks is).Sat b fun _ b' => Seals is b b' := by
  induction is generalizing b with
  | nil => exact ⟨.refl b, rfl, fun j => (if_neg (by simp)).symm, Nat.le_refl _⟩
  | cons i rest ih =>
    refine Sat.bind (sealBlock_seals hv (hi i (by simp))) fun _ b₁ h₁ => ?_
    refine (ih (h₁.valid hv) fun j hj => ?_).imp fun _ b₂ h₂ => h₁.cons h₂
    rw [h₁.size]
    exact hi j (by simp [hj])

/-- Sealing leads nowhere. -/
theorem Seals.succs {s b : Builder} {is : List BlockId} (h : Seals is s b) :
    b.function.succs = s.function.succs := by
  funext i
  rw [Function.succs, h.ending, Function.succs]
  split
  · rename_i hi
    rw [hi.1]
    rfl
  · rfl

/-! ### The entry block -/

/-- A body starts at the entry block of its function, where control is. -/
structure Enters (s b : Builder) : Prop extends Inside s b where
  placed : b.Placed
  reached : b.Reached
  size : b.function.blocks.size = 1
  current : b.current = some Id.entry
  ending : ∀ i, b.function.ending i = none

theorem entry_enters {m : Module} {func : FuncId} {name : String} {params : List Ty} {ret : Ty}
    (hf : m.function? func = some (.declare name params ret)) : ∃ entry b b',
      appendBlock "entry" (.start m func) = (entry, b) ∧ positionAt entry b = ((), b') ∧
      Enters { module := m, func } b' := by
  rw [start_eq hf]
  let s : Builder := { module := m, func }
  have hv : s.func.index < s.module.functions.size := (Array.getElem?_eq_some_iff.1 hf).1
  have hfun : s.function = .declare name params ret := by simp [s, Builder.function, hf]
  have hsize : s.function.blocks.size = 0 := by simp [hfun, Function.declare]
  obtain ⟨entry, b, hb, hi, hm⟩ : ∃ entry b, appendBlock "entry" s = (entry, b) ∧
      entry.index = s.function.blocks.size ∧ Makes 1 s b := ⟨_, _, rfl, appendBlock_makes hv "entry"⟩
  obtain rfl : entry = Id.entry := Id.ext (hi.trans hsize)
  have hsize' : b.function.blocks.size = 1 := by rw [hm.size, hsize]
  have hend : ∀ i, b.function.ending i = none := fun i => by
    rw [hm.ending]
    exact Function.ending_eq_none (by omega)
  have hlt : Id.entry.index < b.function.blocks.size := by
    rw [hsize']
    exact Nat.one_pos
  refine ⟨Id.entry, b, _, hb, positionAt_eq hlt, ?_⟩
  refine ⟨⟨hm.func, hm.pointerBits, hm.head, hm.functions, hm.others, hm.code, hm.hosts⟩, ⟨hm.valid hv, ?_, ⟨_, rfl, hlt⟩, ?_⟩,
    ⟨Id.entry, rfl, hend _, .refl⟩, hsize', rfl, hend⟩
  · exact Nat.lt_of_lt_of_eq Nat.one_pos hsize'.symm
  · intro i j hj
    have : b.function.succs j = [] := by rw [Function.succs, hend j]; rfl
    exact absurd (this ▸ hj : i ∈ ([] : List BlockId)) (by simp)

end BlockForge.Ir.Emit

namespace BlockForge.Lowering

open Diagnostic (Diag Queue)
open Ir (BlockId Builder Emit Module)
open Ir.Emit
open Source (FunctionDef Program Span Stmt Visit completesAll properAll runStarts runsOn visitsAll)
open StateM
open Lower (Matches Moves)
open BlockForge.Types (Ty)

/-! ### Parameters -/

section

variable {env : Env} {s : State}

theorem bindParams_passes (env : Env) (hs : s.Sane) (hr : s.builder.Reached) (position : Nat)
    (params : List (String × Ty × Span)) :
    ∃ s' log, (bindParams env position params).Moves s () s' log ∧ Passes env true true [] s s' log ∧
      (Quiet env s.scope log →
        BindsParams env position params s.scope s.builder s'.scope s'.builder) := by
  induction params generalizing s position with
  | nil => exact ⟨s, [], fun _ _ => rfl, .refl (by simpa using hr), fun _ => .nil⟩
  | cons p rest ih =>
    obtain ⟨name, t, span⟩ := p
    obtain ⟨b, scope, l₁, hm₁, a₁, hp₁, ho, hh, hd⟩ := slot_moves env (hs.placed.opened hr) "parameter" name
      (Ir.Function.param position) t span
    have hpass : Passes env true true [] s { s with builder := b, scope } l₁ := by
      refine advances_passes hr a₁ hp₁ ho hh fun hq => ?_
      obtain ⟨slot, b₁, -, -, hdecl⟩ := hd (hq.eq_nil hp₁)
      exact hq.declare hdecl (by simp)
    obtain ⟨s', l₂, hm₂, hp₂, hrule⟩ := ih (hs.passes hpass) (hpass.live.2 rfl) (position + 1)
    refine ⟨s', l₁ ++ l₂, hm₁.bind hm₂, hpass.trans hs hp₂, fun hq => ?_⟩
    obtain ⟨slot, b₁, ha, hst, hdecl⟩ := hd (hq.left.eq_nil hp₁)
    exact .cons ha hst hdecl (hrule (hq.right (hpass.clean hq.left)))

/-! ### The end of a body -/

/-- A report of a body that does not return. -/
def isMissingReturn (d : Diag) : Bool := d.code == .e2030

/-- All blocks of the builder's function. -/
def allBlocks (b : Builder) : List BlockId := (List.range b.function.blocks.size).map Ir.Id.mk

theorem mem_allBlocks {b : Builder} {i : BlockId} :
    i ∈ allBlocks b ↔ i.index < b.function.blocks.size := by
  simp only [allBlocks, List.mem_map, List.mem_range]
  exact ⟨by rintro ⟨n, hn, rfl⟩; exact hn, fun h => ⟨i.index, h, rfl⟩⟩

theorem ReachCache.Exact.seals {cache : ReachCache} {is : List BlockId} {b d : Builder}
    (h : cache.Exact b) (k : Seals is b d) : cache.Exact d := by
  intro n hn
  obtain ⟨hle, hmarked⟩ := h n hn
  have hterm := k.terminators
  refine ⟨Nat.le_trans hle hterm, fun heq i => ?_⟩
  rw [Ir.Function.Path, k.succs]
  exact hmarked (by omega) i

/-- The first half of the end of a body: a live end returns `()`, or is reported. -/
def Lower.endBody (env : Env) (span : Span) : Lower Unit := do
  if !(← Lower.positionIsDead) then
    if env.returnType.isUnit then Lower.emit Emit.retVoid
    else
      Lower.report (Problem.missingReturn span env.functionName env.returnType.render)
      Lower.emit Emit.unreachable

/-- The other half: every block that has not ended is sealed. -/
def Lower.sealAll : Lower Unit := do
  let blocks := (List.range (← get).builder.function.blocks.size).map Ir.Id.mk
  Lower.emit (Lower.sealBlocks blocks)

theorem Lower.finishBody_eq (env : Env) (span : Span) : Lower.finishBody env span = (do
    Lower.endBody env span
    Lower.sealAll) := by
  simp only [Lower.finishBody, Lower.endBody, Lower.sealAll, bind_assoc]
  congr
  funext dead
  cases dead with
  | true => rfl
  | false =>
    cases env.returnType.isUnit with
    | true => rfl
    | false => rfl

/-- The blocks that are left are sealed. -/
theorem seal_matches (hs : s.builder.Placed) : ∃ b,
    Lower.sealAll.Matches Lower.sealAll s () { s with builder := b } [] ∧
    Lower.sealBlocks (allBlocks s.builder) s.builder = ((), b) ∧
    Seals (allBlocks s.builder) s.builder b := by
  have h := sealBlocks_seals hs.valid (allBlocks s.builder) fun i hi => mem_allBlocks.1 hi
  exact ⟨_, ⟨fun q r hr => ⟨r, rfl, hr.seals h⟩, fun q r => rfl⟩, rfl, h⟩

/-- The first half of the end of a body, by whether it completes. -/
def followReturn (env : Env) (d : FunctionDef) : Lower Unit := do
  if completesAll false d.body then
    if env.returnType.isUnit then Lower.emit Emit.retVoid
    else
      Lower.report (Problem.missingReturn d.span env.functionName env.returnType.render)
      Lower.emit Emit.unreachable

theorem followEnd_eq (env : Env) (d : FunctionDef) : followEnd env d = (do
    followReturn env d
    Lower.sealAll) := by
  unfold followEnd followReturn
  cases completesAll false d.body with
  | false => rfl
  | true =>
    cases env.returnType.isUnit with
    | true => rfl
    | false => rfl

/-- The last block of a body, by whether it completes: it returns, or a missing return is reported. -/
theorem end_matches (env : Env) (hs : s.Sane) {d : FunctionDef}
    (hl : s.builder.Reached ↔ completesAll false d.body = true) : ∃ b log,
      (Lower.endBody env d.span).Matches (followReturn env d) s () { s with builder := b } log ∧
      (∀ {C : Prop}, Builds (fun _ => False) (fun _ => False) C (¬Quiet env s.scope log) s.builder b) ∧
      log = (if completesAll false d.body && !env.returnType.isUnit then
        [Problem.missingReturn d.span env.functionName env.returnType.render] else []) ∧
      (Quiet env s.scope log → EndsBody env s.builder b) := by
  cases hc : completesAll false d.body with
  | false =>
    have hdead : ¬s.builder.Reached := by simp [hl, hc]
    refine ⟨s.builder, [], ?_, fun {C} => ?_, rfl, fun _ => .dead hdead⟩
    · unfold Lower.endBody followReturn
      rw [hc]
      refine Lower.matches_decide hs.placed (by simpa using hdead : s.builder.Reached ↔ false = true) ?_
      exact .pure ()
    · exact (Builds.refl _).settled hdead fun i hi hne => absurd hi hne
  | true =>
    have hr : s.builder.Reached := hl.2 hc
    have hopen := hs.placed.opened hr
    obtain ⟨c, hcur, -⟩ := hr.position
    have hend : ∀ (t : Ir.Terminator) (log : List Diag), t.successors = [] →
        (t = .unreachable → ¬Quiet env s.scope log) → ∃ b,
          Emit.terminate t s.builder = ((), b) ∧
          ∀ {C : Prop}, Builds (fun _ => False) (fun _ => False) C (¬Quiet env s.scope log)
            s.builder b := by
      intro t log hsucc hdead
      have ht : Turns s.builder (Emit.terminate t s.builder).2 t c := terminate_turns hopen hcur t
      exact ⟨_, rfl, (ht.builds hopen hcur (by simp [hsucc]) hdead).imp (by simp [hsucc])
        (fun _ hi => hi) id⟩
    cases hu : env.returnType.isUnit with
    | true =>
      obtain ⟨b, hb, hbuilds⟩ := hend (.ret none) [] rfl (by simp)
      refine ⟨b, [], ?_, hbuilds, rfl, fun _ => .live hr hu hb⟩
      unfold Lower.endBody followReturn
      rw [hc, hu]
      refine Lower.matches_decide hs.placed (by simpa using hr : s.builder.Reached ↔ true = true) ?_
      exact Lower.matches_emit hb (hbuilds (C := True)).toSpreads
    | false =>
      have hquiet : ¬Quiet env s.scope
          [Problem.missingReturn d.span env.functionName env.returnType.render] := fun hq => by
        cases hq.errors _ (List.mem_singleton.2 rfl)
      obtain ⟨b, hb, hbuilds⟩ := hend .unreachable _ rfl fun _ => hquiet
      refine ⟨b, [Problem.missingReturn d.span env.functionName env.returnType.render], ?_, hbuilds, rfl,
        fun hq => absurd hq hquiet⟩
      unfold Lower.endBody followReturn
      rw [hc, hu]
      refine Lower.matches_decide hs.placed (by simpa using hr : s.builder.Reached ↔ true = true) ?_
      exact ((Lower.yields_report _).moves.same (J := fun _ => False) (.refl _)).bind
        (Lower.matches_emit hb (hbuilds (C := True)).toSpreads)

/-! ### Functions -/

/-- The first part of a function: its entry block and its parameters. -/
def enterFunction (env : Env) (d : FunctionDef) (sig : Signature) : Lower Unit := do
  let entry ← Lower.emit (Emit.appendBlock "entry")
  Lower.emit (Emit.positionAt entry)
  Lower.onScope Scope.push
  bindParams env 0 (parameters d sig)

/-- A function up to the end of its last block; the blocks that nothing has ended are still open. -/
def lowerUnsealed (env : Env) (d : FunctionDef) (sig : Signature) : Lower Unit := do
  enterFunction env d sig
  lowerStmts env d.body
  Lower.endBody env d.span

theorem lowerFunction_eq (env : Env) (d : FunctionDef) (sig : Signature) :
    lowerFunction env d sig = (do
      lowerUnsealed env d sig
      Lower.sealAll
      Lower.onScope Scope.pop) := by
  simp only [lowerFunction, lowerUnsealed, enterFunction, Lower.finishBody_eq, bind_assoc]

/-- What lowering a body leaves, from a module where its function is declared. -/
structure Bodied (env : Env) (d : FunctionDef) (sig : Signature) (m : Module) (s : State)
    (log : List Diag) : Prop where
  inside : Inside { module := m, func := sig.func } s.builder
  skips : log.filter isSkip =
    (runStarts false (visitsAll false true d.body)).map Problem.unreachableCode
  returns : log.filter isMissingReturn = if completesAll false d.body && !env.returnType.isUnit then
    [Problem.missingReturn d.span env.functionName env.returnType.render] else []
  rule : Quiet env {} log →
    LowersFunction env (parameters d sig) d.body (.start m sig.func) s.builder
  sealed : ∃ b : Builder,
    (∀ q, (lowerUnsealed env d sig ⟨.start m sig.func, q, {}, [], false, {}⟩).2.builder = b) ∧
    Seals (allBlocks b) b s.builder ∧
    (properAll d.body = true → ∀ i : BlockId, i.index < b.function.blocks.size →
      b.function.ending i = none → ¬b.function.Path Ir.Id.entry i) ∧
    ∀ i : BlockId, b.function.ending i = some .unreachable →
      b.function.Halts b.module i ∨ ¬Quiet env {} log

theorem Quiet.start {log : List Diag} (h : Quiet env {} log) : Quiet env (Scope.push {}) log :=
  ⟨h.toClean.push, h.errors⟩

/-- A body is lowered by its structure, whatever has been reported before. -/
theorem lowerFunction_bodied (henv : env.Shaped) {m : Module} (d : FunctionDef) {sig : Signature}
    {name : String} {params : List Ir.Ty} {ret : Ir.Ty}
    (hf : m.function? sig.func = some (.declare name params ret)) : ∃ s' log,
      Bodied env d sig m s' log ∧ ∀ q : Queue,
        (∃ reach, lowerFunction env d sig ⟨.start m sig.func, q, {}, [], false, {}⟩ =
          ((), { s' with diags := q.submit log, reach })) ∧
        followFunction env d sig ⟨.start m sig.func, q, {}, [], false, {}⟩ =
          ((), { s' with diags := q.submit log, reach := {} }) := by
  obtain ⟨entry, b₁, b₂, he, hp, hin⟩ := entry_enters hf
  let s₁ : State := ⟨b₂, {}, Scope.push {}, [], false, {}⟩
  have hs₁ : s₁.Sane := ⟨hin.placed, by rintro i ⟨t, ht, -⟩; cases ht⟩
  obtain ⟨s₂, l₁, hm₁, hp₁, hrule₁⟩ := bindParams_passes env hs₁ hin.reached 0 (parameters d sig)
  have hs₂ := hs₁.passes hp₁
  have hin₂ : s₂.inLoop = false := State.inLoop_eq hp₁.loops
  obtain ⟨s₃, l₂, hm₂, hp₂, hrule₂⟩ := list_paths henv d.body s₂ true hs₂ hp₁.live
  rw [hin₂, Bool.true_and] at hp₂
  rw [hin₂] at hm₂
  rw [hp₁.loops] at hrule₂
  have hpass := hp₁.trans hs₁ hp₂
  have hs₃ := hs₂.passes hp₂
  obtain ⟨b, l₃, hm₃, hb₃, hlog₃, hrule₃⟩ := end_matches env hs₃ hp₂.live
  obtain ⟨b', hm₄, hseal, hseals⟩ := seal_matches (s := { s₃ with builder := b })
    ((hb₃ (C := True)).placed hs₃.placed)
  have hall : Quiet env {} (l₁ ++ (l₂ ++ l₃)) → Quiet env s₁.scope (l₁ ++ l₂) ∧
      Quiet env s₂.scope l₂ ∧ Quiet env s₃.scope l₃ := by
    intro hq
    have hq' := hq.start
    rw [← List.append_assoc] at hq'
    have hq₂ := hq'.left.right (hp₁.clean hq'.left.left)
    exact ⟨hq'.left, hq₂, hq'.right (hp₂.clean hq₂)⟩
  have hbegin : ∀ (k : Lower Unit) (q : Queue), (do
      enterFunction env d sig
      k : Lower Unit) ⟨.start m sig.func, q, {}, [], false, {}⟩ =
        (bindParams env 0 (parameters d sig) >>= fun _ => k) { s₁ with diags := q, reach := {} } := by
    intro k q
    simp only [enterFunction, bind_assoc]
    simp only [bind, StateT.bind, Lower.emit, he, hp]
    rfl
  have hmatch : Matches (do
      bindParams env 0 (parameters d sig)
      lowerStmts env d.body
      Lower.endBody env d.span) (do
      bindParams env 0 (parameters d sig)
      followStmts env false true d.body
      followReturn env d) s₁ () { s₃ with builder := b } (l₁ ++ (l₂ ++ l₃)) :=
    (hm₁.same hp₁.builds.toSpreads).bind (hm₂.bind hm₃)
  refine ⟨{ s₃ with builder := b', scope := s₃.scope.pop }, l₁ ++ (l₂ ++ l₃),
    ⟨?_, ?_, ?_, fun hq => ?_, b, fun q => ?_, hseals, ?_⟩, fun q => ?_⟩
  · have hb₃' := hb₃ (C := True)
    exact (hin.toInside.trans hpass.builds.toInside).trans (hb₃'.toInside.trans hseals.toInside)
  · have hskip₃ : l₃.filter isSkip = [] := by
      rw [hlog₃]
      split <;> rfl
    rw [← List.append_assoc, List.filter_append, hskip₃, List.append_nil]
    exact hpass.skips
  · have hnone : (l₁ ++ l₂).filter isMissingReturn = [] :=
      List.filter_eq_nil_iff.2 fun d hd => by simpa [isMissingReturn] using hpass.returns d hd
    rw [← List.append_assoc, List.filter_append, hnone, List.nil_append, hlog₃]
    split <;> rfl
  · obtain ⟨hq₁, hq₂, hq₃⟩ := hall hq
    exact .intro he hp (hrule₁ hq₁.left) (hrule₂ hq₂) (hrule₃ hq₃) hseal
  · obtain ⟨r, hcached, -⟩ := hmatch.cached q {} (by simp [ReachCache.Exact])
    exact congrArg (fun x => x.2.builder) ((hbegin _ q).trans hcached)
  · -- the entry block is the only one that was there before, and the position was in it
    have hbuilds : ∀ {C : Prop}, (C → properAll d.body = true) →
        Builds s₁.Target (fun _ => False) C (¬Quiet env {} (l₁ ++ (l₂ ++ l₃))) b₂ b := by
      intro C hC
      refine (hpass.builds.under fun hc => by simpa using hC hc).andThen hb₃ (by simp) (by simp)
        (fun i hi hne => absurd hi hne) (by simp) (fun hn hq => hn (hall hq).1)
        fun hn hq => hn (hall hq).2.2
    refine ⟨fun hproper i hi hopen hpath => ?_, fun i hi => ?_⟩
    · obtain ⟨hlt, hne⟩ := ((hbuilds id).pending hproper hi hopen hpath).resolve_left id
      rw [hin.size] at hlt
      refine hne (hin.current.trans (congrArg some (Ir.Id.ext ?_)))
      exact (Nat.lt_one_iff.1 hlt).symm
    · rcases (hbuilds (C := False) (by simp)).deadEnds hi with h | h | h
      · rw [hin.ending] at h
        cases h
      · exact .inl h
      · exact .inr h
  · have hfull := hmatch.bind (f := fun _ => do Lower.sealAll; Lower.onScope Scope.pop)
      (g := fun _ => do Lower.sealAll; Lower.onScope Scope.pop) (hm₄.bind (matches_onScope Scope.pop))
    rw [List.append_nil, List.append_nil] at hfull
    obtain ⟨r, hcached, -⟩ := hfull.cached q {} (by simp [ReachCache.Exact])
    have hdirect := hfull.direct q {}
    refine ⟨⟨r, ?_⟩, ?_⟩
    · rw [lowerFunction_eq, lowerUnsealed]
      simp only [bind_assoc] at hcached ⊢
      exact (hbegin _ q).trans hcached
    · rw [followFunction, followEnd_eq]
      simp only [bind_assoc] at hdirect ⊢
      have hfirst := hbegin (do
        followStmts env false true d.body
        followEnd env d
        Lower.onScope Scope.pop) q
      rw [followEnd_eq, enterFunction] at hfirst
      simp only [bind_assoc] at hfirst
      exact hfirst.trans hdirect

end

end BlockForge.Lowering
