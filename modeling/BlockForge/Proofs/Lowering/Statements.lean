import BlockForge.Lowering.Stmt
import BlockForge.Proofs.Lowering.Expressions

/-!
# Lowering statements

A statement is lowered from a live state and leaves a well-formed one, whose position may have ended.
`State.After` says what it may have done besides: it works on the current block and on new ones, and
binds names in the innermost scope only.
-/

namespace BlockForge.Lowering

open Ir (BlockId Builder Emit ValueId)
open Source (Chain Expr Span Stmt TypeExpr)
open StateM
open BlockForge.Types (Ty)

/-! ### States after statements -/

namespace State

/-- What lowering statements does. -/
structure After (env : Env) (s s' : State) : Prop where
  ok : s'.Ok env
  ext : s.builder.Ext s'.builder
  loops : s'.loops = s.loops
  outer : s'.scope.frames.tail = s.scope.frames.tail
  height : s'.scope.frames.length = s.scope.frames.length
  failed : s.Failed → s'.Failed

variable {env : Env} {s s' t : State}

theorem After.refl (h : s.Ok env) : After env s s := ⟨h, .refl _, rfl, rfl, rfl, id⟩

theorem After.trans (h : After env s s') (k : After env s' t) : After env s t :=
  ⟨k.ok, h.ext.trans k.ext, k.loops.trans h.loops, k.outer.trans h.outer,
    k.height.trans h.height, fun hf => k.failed (h.failed hf)⟩

theorem Onward.after (o : Onward s s') (h : s.Live env) : After env s s' :=
  ⟨(h.onward o).toOk, o.builder.ext, o.loops, by rw [o.scope], by rw [o.scope], o.failed⟩

/-- A later state with the same scope and loops. -/
theorem Ok.afterAs (h : s.Ok env) (hb : s'.builder.Ok) (he : s.builder.Ext s'.builder)
    (hs : s'.scope = s.scope) (hl : s'.loops = s.loops) (hf : s.Failed → s'.Failed)
    (hr : s'.reach.Sound s'.builder) : After env s s' :=
  ⟨h.ext hb he hs hl hf hr, he, hl, by rw [hs], by rw [hs], hf⟩

/-- A change of the builder only. -/
theorem Ok.after (h : s.Ok env) {b : Builder} (hb : b.Ok) (he : s.builder.Ext b) :
    After env s { s with builder := b } := h.afterAs hb he rfl rfl id (h.reach.ext he)

end State

open State

section

variable {env : Env} {s : State}

theorem runs_after {α : Type} {x : Lower α} {P : α → State → Prop} (h : s.Live env)
    (hx : x.Runs s P) : x.Sat s fun _ s' => After env s s' :=
  Sat.imp hx fun _ _ hs => hs.1.after h

theorem emit_after {e : Emit Unit} {t : Ir.Terminator} (h : s.Live env)
    (he : e.Sat s.builder fun _ b => Emit.Halted s.builder b t) :
    (Lower.emit e).Sat s fun _ s' => After env s s' := h.toOk.after he.ok he.ext

/-! ### Scopes -/

theorem State.Ok.push (h : s.Ok env) : ({ s with scope := s.scope.push } : State).Ok env :=
  { h with
    scope := fun frame hf e he => by
      rcases List.mem_cons.1 hf with rfl | hf
      · simp at he
      · exact h.scope frame hf e he }

theorem State.Ok.pop (h : s.Ok env) : ({ s with scope := s.scope.pop } : State).Ok env :=
  { h with scope := fun frame hf e he => h.scope frame (List.mem_of_mem_tail hf) e he }

/-- A body with a scope of its own leaves the scope as it was. -/
theorem scoped_bind {β : Type} {x : Lower Unit} {k : Unit → Lower β} {Q : β → State → Prop}
    (hx : x.Sat { s with scope := s.scope.push } fun _ s' =>
      After env { s with scope := s.scope.push } s')
    (hk : ∀ s', After env s s' → s'.scope = s.scope → (k ()).Sat s' Q) :
    (Lower.onScope Scope.push >>= fun _ => x >>= fun _ => Lower.onScope Scope.pop >>= k).Sat s Q := by
  refine Sat.modify_bind (Sat.bind hx fun _ s₁ a => Sat.modify_bind ?_)
  have hscope : s₁.scope.pop = s.scope := congrArg Scope.mk a.outer
  refine hk { s₁ with scope := s₁.scope.pop } ⟨a.ok.pop, a.ext, a.loops, ?_, ?_, a.failed⟩ hscope
  · exact congrArg (·.frames.tail) hscope
  · exact congrArg (·.frames.length) hscope

theorem bind_after (h : s.Live env) (what name : String) {b : Binding} (hb : s.BindingOk env b)
    (span : Span) : (Lower.bind what name b span).Sat s fun _ s' => After env s s' := by
  refine Sat.get_bind ?_
  split
  · rename_i scope hd
    cases hs : s.scope with | mk frames => ?_
    cases frames with
    | nil => simp [hs, Scope.declare?] at hd
    | cons frame rest =>
      rw [hs] at hd
      simp only [Scope.declare?] at hd
      split at hd
      · cases hd
      · cases hd
        refine ⟨?_, .refl _, rfl, by rw [hs]; rfl, by rw [hs]; rfl, id⟩
        refine { h.toOk with scope := fun fr hf e he => ?_ }
        rcases List.mem_cons.1 hf with rfl | hf
        · rcases List.mem_cons.1 he with rfl | he
          · exact hb
          · exact h.scope frame (by simp [hs]) e he
        · exact h.scope fr (by simp [hs, hf]) e he
  · exact runs_after h (Lower.report_goes h.live _)

/-! ### Positions -/

theorem isReachable_sound {cache : ReachCache} {b : Builder} (h : cache.Sound b) (hb : b.Ok)
    (i : BlockId) : (cache.isReachable b i).2.Sound b ∧
      (b.function.Path Ir.Id.entry i → (cache.isReachable b i).1 = true) := by
  have hne : 0 < b.function.blocks.size := by
    obtain ⟨c, -, hlt⟩ := hb.position
    omega
  unfold ReachCache.isReachable
  split
  · rename_i heq
    exact ⟨h, (h _ heq).2 rfl i⟩
  · have hmarked := fun j => hb.function.reachable (i := j) hne
    refine ⟨fun n hn => ?_, hmarked i⟩
    obtain rfl := Option.some.inj hn
    exact ⟨Nat.le_refl _, fun _ j => hmarked j⟩

/-- Only the cache of reachable blocks changes. A position that is not dead is open, and one that
control can get to is not dead. -/
theorem positionIsDead_sat (h : s.Ok env) : Lower.positionIsDead.Sat s fun dead s' =>
    (∃ reach, s' = { s with reach } ∧ reach.Sound s.builder) ∧
      (dead = false → ∃ c, s.builder.current = some c ∧ s.builder.function.ending c = none) ∧
      ∀ c, s.builder.current = some c → s.builder.function.ending c = none →
        s.builder.function.Path Ir.Id.entry c → dead = false := by
  refine Sat.get_bind ?_
  split
  · rename_i hc
    exact Sat.pure ⟨⟨s.reach, rfl, h.reach⟩, by simp, by simp [hc]⟩
  · rename_i c hc
    split
    · rename_i ht
      refine Sat.pure ⟨⟨s.reach, rfl, h.reach⟩, by simp, ?_⟩
      intro d hd ho
      obtain rfl : c = d := Option.some.inj (hc.symm.trans hd)
      simp [Builder.hasTerminator_eq, ho] at ht
    · rename_i ht
      have ho : s.builder.function.ending c = none := by
        simpa [Builder.hasTerminator_eq] using ht
      split
      · exact Sat.pure ⟨⟨s.reach, rfl, h.reach⟩, fun _ => ⟨c, hc, ho⟩, fun _ _ _ _ => rfl⟩
      · obtain ⟨hsound, hpath⟩ := isReachable_sound h.reach h.builder c
        refine ⟨⟨_, rfl, hsound⟩, fun _ => ⟨c, hc, ho⟩, fun d hd _ hp => ?_⟩
        obtain rfl : c = d := Option.some.inj (hc.symm.trans hd)
        show (!(s.reach.isReachable s.builder c).1) = false
        rw [hpath hp]
        rfl

theorem State.Ok.withReach (h : s.Ok env) {reach : ReachCache} (hr : reach.Sound s.builder) :
    ({ s with reach } : State).Ok env :=
  { h with reach := hr }

theorem branchIfLive_after (h : s.Ok env) {target : BlockId}
    (ht : target.index < s.builder.function.blocks.size) (hn : s.builder.function.NoPhi target) :
    (Lower.branchIfLive target).Sat s fun _ s' => After env s s' ∧ s'.scope = s.scope := by
  refine Sat.bind (positionIsDead_sat h) ?_
  rintro dead _ ⟨⟨reach, rfl, hr⟩, hopen, -⟩
  have hreach : After env s { s with reach } := ⟨h.withReach hr, .refl _, rfl, rfl, rfl, id⟩
  cases dead with
  | true => exact Sat.pure ⟨hreach, rfl⟩
  | false =>
    have hlive : ({ s with reach } : State).builder.Live := ⟨h.builder, hopen rfl⟩
    have hbr := Emit.br_halted hlive ht hn
    exact ⟨hreach.trans ((h.withReach hr).after hbr.ok hbr.ext), rfl⟩

/-! ### Declarations, assignments and returns -/

theorem lowerInferred_runs (h : s.Live env) (name : String) {o : Operand} (ho : o.Ok env) :
    (lowerInferred name o).Runs s (Typed.Fits env) := by
  refine Attempt.Runs.bind (ho none h) fun v s₁ o₁ hv => ?_
  split
  · exact Attempt.reject_runs o₁.builder.live rfl
  · exact Attempt.Runs.pure o₁.builder.live hv

/-- A slot for a value of a type. -/
theorem entryAlloca_runs (h : s.Live env) (t : Ty) (name : String) :
    (Lower.emit (Emit.entryAlloca (env.ir t) name)).Runs s fun a s' =>
      s'.BindingOk env (.slot a t) := by
  have hscalar : (env.ir t).isScalar = true := Env.isScalar_ir t
  have hs := Emit.entryAlloca_onward h.live hscalar name
  exact ⟨⟨hs.1, rfl, rfl, rfl, id⟩, hs.2.1, hs.2.2.2.2.2⟩

theorem bindValue_after (h : s.Live env) (name : String) {v : Option Typed}
    (hv : Attempt.Post (Typed.Fits env) v s) (span : Span) :
    (bindValue env name v span).Sat s fun _ s' => After env s s' := by
  cases v with
  | none => exact bind_after (b := .poisoned) h _ _ hv span
  | some v =>
    refine Sat.bind (entryAlloca_runs h v.ty name) ?_
    rintro a s₁ ⟨o₁, ha⟩
    have h₁ := h.onward o₁
    refine Sat.bind (Lower.emit_runs (Emit.store_onward h₁.live (.inl ⟨_, o₁.has hv⟩) ha.1)) ?_
    rintro - s₂ ⟨o₂, -⟩
    refine (bind_after (h₁.onward o₂) "variable" name (ha.ext o₂.builder.ext o₂.failed) span).imp ?_
    intro _ s₃ a₃
    exact ((o₁.trans o₂).after h).trans a₃

theorem lowerVar_after (h : s.Live env) (name : String) (declared : Option TypeExpr)
    {init : Operand} (hi : init.Ok env) (span : Span) :
    (lowerVar env name declared init span).Sat s fun _ s' => After env s s' := by
  cases declared with
  | none =>
    refine Sat.bind (lowerInferred_runs h name hi).run ?_
    rintro v s₁ ⟨o₁, hv⟩
    exact (bindValue_after (h.onward o₁) name hv span).imp fun _ _ a => (o₁.after h).trans a
  | some t =>
    refine Sat.bind (resolve_runs h t span).run ?_
    rintro r s₁ ⟨o₁, hr⟩
    have h₁ := h.onward o₁
    cases r with
    | none =>
      refine Sat.bind (visit_goes hi h₁) ?_
      rintro - s₂ ⟨o₂, -⟩
      refine (bindValue_after (v := none) (h₁.onward o₂) name (o₂.failed hr) span).imp ?_
      exact fun _ _ a => ((o₁.trans o₂).after h).trans a
    | some target =>
      refine Sat.bind (lowerAs_runs hi h₁ target _).run ?_
      rintro v s₂ ⟨o₂, hv⟩
      have hv' : Attempt.Post (Typed.Fits env) v s₂ := by
        cases v with
        | none => exact hv
        | some v => exact hv.2
      refine (bindValue_after (h₁.onward o₂) name hv' span).imp ?_
      exact fun _ _ a => ((o₁.trans o₂).after h).trans a

theorem lowerLocalAssign_runs (h : s.Live env) (name : String) (span : Span) {value : Operand}
    (hv : value.Ok env) : (lowerLocalAssign name span value).Runs s fun _ _ => True := by
  refine Attempt.get_bind ?_
  split
  · rename_i slot t hb
    refine Attempt.Runs.bind (lowerAs_runs hv h t _) fun v s₁ o₁ hv₁ => ?_
    exact Attempt.emit_goes (Emit.store_onward o₁.builder.live (.inl ⟨_, hv₁.2⟩)
      (o₁.has (h.lookup? hb).1))
  · exact Attempt.lift_runs (visit_goes hv h)
  · refine Attempt.Runs.bind (Attempt.lift_runs (Lower.report_goes h.live _)) fun _ s₁ o₁ _ => ?_
    exact Attempt.lift_runs (visit_goes hv (h.onward o₁))

theorem lowerAssign_runs (h : s.Live env) (target : Expr) {value : Operand} (hv : value.Ok env)
    (span : Span) : (lowerAssign env target value span).Runs s fun _ _ => True := by
  unfold lowerAssign
  split
  · exact lowerLocalAssign_runs h _ _ hv
  · exact lowerFieldAssign_runs h (operand_ok env _) hv _ _
  · exact lowerIndexAssign_runs h (operand_ok env _) (operand_ok env _) hv _
  · refine Attempt.Runs.bind (Attempt.lift_runs (Lower.report_goes h.live _)) fun _ s₁ o₁ _ => ?_
    exact Attempt.lift_runs (visit_goes hv (h.onward o₁))

theorem lowerCondition_runs (h : s.Live env) {o : Operand} (ho : o.Ok env) (what : String) :
    (lowerCondition o what).Runs s fun c s' => s'.builder.function.Has c .i1 := by
  refine Lower.Runs.bind (ho _ h).run fun v s₁ o₁ hv => ?_
  cases v with
  | none => exact Lower.emit_runs (Emit.constBool_onward o₁.builder.live false)
  | some v =>
    dsimp only
    split
    · rename_i hb
      refine Lower.Runs.pure o₁.builder.live ?_
      have : s₁.builder.function.Has v.value (env.ir v.ty) := hv
      rw [hb] at this
      exact this
    · refine Lower.Runs.bind (Lower.report_goes o₁.builder.live _) fun _ s₂ o₂ _ => ?_
      exact Lower.emit_runs (Emit.constBool_onward o₂.builder.live false)

theorem lowerLoopExit_after (h : s.Live env) (keyword : String) {exit : LoopTargets → BlockId}
    (he : ∀ t, exit t = t.test ∨ exit t = t.stop) (span : Span) :
    (lowerLoopExit keyword exit span).Sat s fun _ s' => After env s s' := by
  refine Sat.get_bind ?_
  split
  · exact runs_after h (Lower.report_goes h.live _)
  · rename_i t rest hl
    obtain ⟨h₁, h₂, h₃, h₄⟩ := h.loops t (by simp [hl])
    rcases he t with he | he <;> rw [he]
    · exact emit_after h (Emit.br_halted h.live h₁ h₂)
    · exact emit_after h (Emit.br_halted h.live h₃ h₄)

theorem lowerReturn_after (h : s.Live env) {value : Option Operand}
    (hv : ∀ o, value = some o → o.Ok env) (span : Span) :
    (lowerReturn env value span).Sat s fun _ s' => After env s s' := by
  have hunit : ∀ {s : State}, s.Live env → env.returnType.isUnit = true →
      (Lower.emit Emit.retVoid).Sat s fun _ s' => After env s s' := by
    intro s h hu
    exact emit_after h (Emit.retVoid_halted h.live (by
      rw [h.returns, Types.Layout.returnIrType, hu]; rfl))
  cases value with
  | none =>
    simp only [lowerReturn]
    split
    · rename_i hu
      exact hunit h hu
    · refine Sat.bind (Lower.report_goes h.live _) ?_
      rintro - s₁ ⟨o₁, -⟩
      refine (emit_after (h.onward o₁) (Emit.unreachable_halted o₁.builder.live)).imp ?_
      exact fun _ _ a => (o₁.after h).trans a
  | some o =>
    simp only [lowerReturn]
    refine Sat.bind (lowerAs_runs (hv o rfl) h env.returnType _).run ?_
    rintro v s₁ ⟨o₁, hv₁⟩
    have h₁ := h.onward o₁
    cases v with
    | none =>
      refine (emit_after h₁ (Emit.unreachable_halted h₁.live)).imp ?_
      exact fun _ _ a => (o₁.after h).trans a
    | some v =>
      dsimp only
      split
      · rename_i hu
        exact (hunit h₁ hu).imp fun _ _ a => (o₁.after h).trans a
      · rename_i hu
        have hval : s₁.builder.function.Has v.value s₁.builder.function.ret := by
          rw [h₁.returns, Types.Layout.returnIrType, if_neg hu, ← hv₁.1]
          exact hv₁.2
        refine (emit_after h₁ (Emit.ret_halted h₁.live hval)).imp ?_
        exact fun _ _ a => (o₁.after h).trans a

theorem reportDead_after (h : s.Ok env) (span : Span) :
    (reportDead span).Sat s fun _ s' => After env s s' := by
  refine Sat.get_bind ?_
  split
  · let q := (s.diags.add (Problem.unreachableCode span)).2
    have hf : s.Failed → ({ s with diags := q, deadReported := true } : State).Failed :=
      fun hf => failed_report.2 (.inl hf)
    exact ⟨h.ext h.builder (.refl _) rfl rfl hf h.reach, .refl _, rfl, rfl, rfl, hf⟩
  · exact Sat.pure (.refl h)

/-! ### Loops and branches -/

/-- A list of statements that lowers well from every well-formed state. -/
def BodyOk (env : Env) (body : List Stmt) : Prop :=
  ∀ {s : State}, s.Ok env → (lowerStmts env body).Sat s fun _ s' => After env s s'

theorem scopedBody_bind {body : List Stmt} (hbody : BodyOk env body) (h : s.Ok env) {β : Type}
    {k : Unit → Lower β} {Q : β → State → Prop}
    (hk : ∀ s', After env s s' → s'.scope = s.scope → (k ()).Sat s' Q) :
    (Lower.onScope Scope.push >>= fun _ => lowerStmts env body >>= fun _ =>
      Lower.onScope Scope.pop >>= k).Sat s Q :=
  scoped_bind (hbody h.push) hk

theorem lowerLoop_after (h : s.Live env) (span : Span) (cond : Expr) {body : List Stmt}
    (hbody : BodyOk env body) :
    (lowerStmt env (.loop span cond body)).Sat s fun _ s' => After env s s' := by
  rw [lowerStmt]
  refine Lower.emit_sat_bind (Emit.appendBlock_appended h.live _) fun test b₁ a₁ => ?_
  refine Lower.emit_sat_bind (Emit.appendBlock_appended a₁.live _) fun start b₂ a₂ => ?_
  refine Lower.emit_sat_bind (Emit.appendBlock_appended a₂.live _) fun stop b₃ a₃ => ?_
  have ext₃ : s.builder.Ext b₃ := (a₁.ext.trans a₂.ext).trans a₃.ext
  have test₃ : Emit.Fresh b₃ test := (a₁.fresh.ext a₂.ext).ext a₃.ext
  refine Lower.emit_sat_bind (Emit.br_halted a₃.live test₃.lt_size test₃.noPhi) fun _ b₄ h₄ => ?_
  have test₄ := test₃.ext h₄.ext
  have start₄ : Emit.Fresh b₄ start := (a₂.fresh.ext a₃.ext).ext h₄.ext
  have stop₄ : Emit.Fresh b₄ stop := a₃.fresh.ext h₄.ext
  have lt₁ : test.index < start.index := by
    rw [a₂.isNext]
    exact a₁.fresh.lt_size
  have lt₂ : start.index < stop.index := by
    rw [a₃.isNext]
    exact a₂.fresh.lt_size
  have new : s.builder.function.blocks.size ≤ test.index := by rw [a₁.isNext]
  refine Lower.emit_sat_bind (Emit.positionAt_ext h₄.ok (ext₃.trans h₄.ext) test₄ new) ?_
  rintro - b₅ ⟨live₅, ext₅, hb₅⟩
  have start₅ : Emit.Fresh b₅ start := hb₅ ▸ start₄.moved (by rintro rfl; omega)
  have stop₅ : Emit.Fresh b₅ stop := hb₅ ▸ stop₄.moved (by rintro rfl; omega)
  have test₅ : test.index < b₅.function.blocks.size ∧ b₅.function.NoPhi test := by
    rw [hb₅]
    exact ⟨test₄.lt_size, test₄.noPhi⟩
  have h₅ := h.toOk.withBuilder live₅ ext₅
  refine Sat.bind (lowerCondition_runs h₅ (operand_ok env cond) _) ?_
  rintro c s₆ ⟨o₆, hc⟩
  have ext₆ : s.builder.Ext s₆.builder := ext₅.trans o₆.builder.ext
  have start₆ := start₅.ext o₆.builder.ext
  have stop₆ := stop₅.ext o₆.builder.ext
  refine Lower.emit_sat_bind (Emit.condBr_fresh o₆.builder.live hc start₆ stop₆) fun _ b₇ h₇ => ?_
  have ext₇ := ext₆.trans h₇.ext
  refine Lower.emit_sat_bind (Emit.positionAt_ext h₇.ok ext₇ (start₆.ext h₇.ext) (by omega)) ?_
  rintro - b₈ ⟨live₈, ext₈, hb₈⟩
  have stop₈ : Emit.Fresh b₈ stop := hb₈ ▸ (stop₆.ext h₇.ext).moved (by rintro rfl; omega)
  have test₈ : test.index < b₈.function.blocks.size ∧ b₈.function.NoPhi test := by
    have ext : b₅.Ext b₇ := o₆.builder.ext.trans h₇.ext
    rw [hb₈]
    exact ⟨Nat.lt_of_lt_of_le test₅.1 ext.grows.size, ext.noPhi _ test₅.1 test₅.2⟩
  refine Sat.modify_bind ?_
  -- the loop's targets are known while its body is lowered
  let s₉ : State := { s₆ with builder := b₈, loops := ⟨test, stop⟩ :: s₆.loops }
  have ok₈ : ({ s₆ with builder := b₈ } : State).Ok env :=
    h.toOk.ext live₈.ok ext₈ o₆.scope o₆.loops (fun hf => o₆.failed hf)
      (o₆.reach ▸ h.reach.ext ext₈)
  have ok₉ : s₉.Ok env := { ok₈ with
    loops := fun t ht => by
      rcases List.mem_cons.1 ht with rfl | ht
      · exact ⟨test₈.1, test₈.2, stop₈.lt_size, stop₈.noPhi⟩
      · exact ok₈.loops t ht }
  refine scopedBody_bind (s := s₉) hbody ok₉ fun s₁₀ a₁₀ hscope => ?_
  refine Sat.modify_bind ?_
  have hloops : s₁₀.loops = ⟨test, stop⟩ :: s₆.loops := a₁₀.loops
  obtain ⟨ht₁, ht₂, -, -⟩ := a₁₀.ok.loops ⟨test, stop⟩ (by rw [hloops]; simp)
  let s₁₁ : State := { s₁₀ with loops := s₁₀.loops.tail }
  have ok₁₁ : s₁₁.Ok env :=
    { a₁₀.ok with loops := fun t ht => a₁₀.ok.loops t (List.mem_of_mem_tail ht) }
  have ext₁₁ : s.builder.Ext s₁₁.builder := ext₈.trans a₁₀.ext
  refine Sat.bind (branchIfLive_after (s := s₁₁) ok₁₁ ht₁ ht₂) ?_
  rintro - s₁₂ ⟨a₁₂, hscope₁₂⟩
  have stop₁₂ : Emit.Fresh s₁₂.builder stop := (stop₈.ext a₁₀.ext).ext a₁₂.ext
  have hscopes : s₁₂.scope = s.scope := hscope₁₂.trans (hscope.trans o₆.scope)
  have hloops₁₂ : s₁₂.loops = s.loops := by
    rw [a₁₂.loops]
    show s₁₀.loops.tail = s.loops
    rw [hloops]
    exact o₆.loops
  have hfail : s.Failed → s₁₂.Failed := fun hf => a₁₂.failed (a₁₀.failed (o₆.failed hf))
  refine Lower.emit_sat (Emit.positionAt_ext a₁₂.ok.builder (ext₁₁.trans a₁₂.ext) stop₁₂
    (by omega)) ?_
  rintro - b₁₃ ⟨live₁₃, ext₁₃, hb₁₃⟩
  exact h.toOk.afterAs live₁₃.ok ext₁₃ hscopes hloops₁₂ hfail (hb₁₃ ▸ a₁₂.ok.reach)

/-- What is left of an `if` chain lowers well wherever its branches join; an empty rest may follow a
branch that has ended. -/
def ChainOk (env : Env) (chain : Chain) : Prop :=
  ∀ {s : State} {stop : BlockId}, s.Ok env → (chain ≠ .done → s.builder.Live) →
    Emit.Fresh s.builder stop →
    (lowerChain env stop chain).Sat s fun _ s' => After env s s' ∧ s'.scope = s.scope

/-- The block for a false condition: a new one, or the end of the chain. -/
theorem nextBlock_sat {b : Builder} (h : b.Live) {stop : BlockId} (hs : Emit.Fresh b stop)
    (rest : Chain) : (nextBlock stop rest).Sat b fun next b' => Emit.Onward b b' ∧
      Emit.Fresh b' next ∧ b'.current = b.current ∧
      (rest = .done ∧ next = stop ∨ rest ≠ .done ∧ next = ⟨b.function.blocks.size⟩) := by
  cases rest with
  | done => exact Sat.pure ⟨.refl h, hs, rfl, .inl ⟨rfl, rfl⟩⟩
  | otherwise body =>
    refine (Emit.appendBlock_appended h _).imp fun next b' a => ?_
    exact ⟨a.toOnward, a.fresh, a.current, .inr ⟨by simp, a.isNext⟩⟩
  | clause c body rest =>
    refine (Emit.appendBlock_appended h _).imp fun next b' a => ?_
    exact ⟨a.toOnward, a.fresh, a.current, .inr ⟨by simp, a.isNext⟩⟩

theorem lowerOtherwise_ok {body : List Stmt} (hbody : BodyOk env body) :
    ChainOk env (.otherwise body) := by
  intro s stop h _ hstop
  rw [lowerChain]
  refine scopedBody_bind hbody h fun s₁ a₁ hscope₁ => ?_
  have stop₁ := hstop.ext a₁.ext
  refine (branchIfLive_after a₁.ok stop₁.lt_size stop₁.noPhi).imp ?_
  rintro - s₂ ⟨a₂, hscope₂⟩
  exact ⟨a₁.trans a₂, hscope₂.trans hscope₁⟩

theorem lowerClause_ok (cond : Expr) {body : List Stmt} (hbody : BodyOk env body) {rest : Chain}
    (hrest : ChainOk env rest) : ChainOk env (.clause cond body rest) := by
  intro s stop hok hlive hstop
  have h : s.Live env := ⟨hok, hlive (by simp)⟩
  rw [lowerChain]
  refine Sat.bind (lowerCondition_runs h (operand_ok env cond) _) ?_
  rintro c s₁ ⟨o₁, hc⟩
  have h₁ := h.onward o₁
  have stop₁ := hstop.ext o₁.builder.ext
  refine Lower.emit_sat_bind (Emit.appendBlock_appended h₁.live _) fun start b₂ a₂ => ?_
  have stop₂ := stop₁.ext a₂.ext
  refine Lower.emit_sat_bind (nextBlock_sat a₂.live stop₂ rest) ?_
  rintro next b₃ ⟨o₃, next₃, -, hnext⟩
  have start₃ : Emit.Fresh b₃ start := a₂.fresh.ext o₃.ext
  have stop₃ := stop₂.ext o₃.ext
  have lt : stop.index < start.index := by
    rw [a₂.isNext]
    exact stop₁.lt_size
  have ne : start ≠ next := by
    rintro rfl
    rcases hnext with ⟨-, he⟩ | ⟨-, he⟩
    · rw [he] at lt
      exact Nat.lt_irrefl _ lt
    · have := a₂.fresh.lt_size
      rw [he] at this
      exact Nat.lt_irrefl _ this
  have hc₃ : b₃.function.Has c .i1 := o₃.has (a₂.has hc)
  refine Lower.emit_sat_bind (Emit.condBr_fresh o₃.live hc₃ start₃ next₃) fun _ b₄ h₄ => ?_
  have ext₄ : s₁.builder.Ext b₄ := (a₂.ext.trans o₃.ext).trans h₄.ext
  refine Lower.emit_sat_bind (Emit.positionAt_ext h₄.ok ext₄ (start₃.ext h₄.ext)
    (by rw [a₂.isNext])) ?_
  rintro - b₅ ⟨live₅, ext₅, hb₅⟩
  have h₅ := h₁.toOk.withBuilder live₅ ext₅
  have next₅ : Emit.Fresh b₅ next := hb₅ ▸ (next₃.ext h₄.ext).moved ne
  have stop₅ : Emit.Fresh b₅ stop :=
    hb₅ ▸ (stop₃.ext h₄.ext).moved (by rintro rfl; exact Nat.lt_irrefl _ lt)
  refine scopedBody_bind (s := { s₁ with builder := b₅ }) hbody h₅.toOk fun s₆ a₆ hscope₆ => ?_
  have stop₆ : Emit.Fresh s₆.builder stop := stop₅.ext a₆.ext
  refine Sat.bind (branchIfLive_after a₆.ok stop₆.lt_size stop₆.noPhi) ?_
  rintro - s₇ ⟨a₇, hscope₇⟩
  have after₇ : After env s s₇ := by
    refine (o₁.after h).trans (h₁.toOk.afterAs a₇.ok.builder ?_ (hscope₇.trans hscope₆) ?_ ?_
      a₇.ok.reach)
    · exact (ext₅.trans a₆.ext).trans a₇.ext
    · exact a₇.loops.trans a₆.loops
    · exact fun hf => a₇.failed (a₆.failed hf)
  have hscope : s₇.scope = s.scope := (hscope₇.trans hscope₆).trans o₁.scope
  have next₇ : Emit.Fresh s₇.builder next := (next₅.ext a₆.ext).ext a₇.ext
  have stop₇ : Emit.Fresh s₇.builder stop := stop₆.ext a₇.ext
  rcases hnext with ⟨rfl, rfl⟩ | ⟨hne, hidx⟩
  · simp only [ne_eq, not_true_eq_false, if_false]
    refine (hrest after₇.ok (by simp) stop₇).imp ?_
    rintro - s₈ ⟨a₈, hscope₈⟩
    exact ⟨after₇.trans a₈, hscope₈.trans hscope⟩
  · have hns : next ≠ stop := by
      rintro rfl
      have := stop₂.lt_size
      rw [hidx] at this
      exact Nat.lt_irrefl _ this
    simp only [ne_eq, hns, not_false_eq_true, if_true]
    have hnew : s.builder.function.blocks.size ≤ next.index := by
      rw [hidx]
      exact (o₁.builder.ext.trans a₂.ext).grows.size
    refine Lower.emit_sat_bind (Emit.positionAt_ext after₇.ok.builder after₇.ext next₇ hnew) ?_
    rintro - b₈ ⟨live₈, ext₈, hb₈⟩
    have after₈ : After env s { s₇ with builder := b₈ } :=
      hok.afterAs live₈.ok ext₈ hscope after₇.loops (fun hf => after₇.failed hf)
        (hb₈ ▸ after₇.ok.reach)
    refine (hrest after₈.ok (fun _ => live₈) (hb₈ ▸ stop₇.moved hns)).imp ?_
    rintro - s₉ ⟨a₉, hscope₉⟩
    exact ⟨after₈.trans a₉, hscope₉.trans hscope⟩

theorem lowerCond_after (h : s.Live env) (span : Span) {chain : Chain} (hc : ChainOk env chain) :
    (lowerStmt env (.cond span chain)).Sat s fun _ s' => After env s s' := by
  rw [lowerStmt]
  refine Lower.emit_sat_bind (Emit.appendBlock_appended h.live _) fun stop b₁ a₁ => ?_
  have h₁ := h.toOk.withBuilder a₁.live a₁.ext
  refine Sat.bind (hc h₁.toOk (fun _ => a₁.live) a₁.fresh) ?_
  rintro - s₂ ⟨a₂, hscope₂⟩
  have ext₂ : s.builder.Ext s₂.builder := a₁.ext.trans a₂.ext
  refine Lower.emit_sat (Emit.positionAt_ext a₂.ok.builder ext₂ (a₁.fresh.ext a₂.ext)
    (by rw [a₁.isNext])) ?_
  rintro - b₃ ⟨live₃, ext₃, hb₃⟩
  exact h.toOk.afterAs live₃.ok ext₃ hscope₂ a₂.loops (fun hf => a₂.failed hf)
    (hb₃ ▸ a₂.ok.reach)

theorem lowerBlock_after (h : s.Live env) (span : Span) {body : List Stmt}
    (hbody : BodyOk env body) :
    (lowerStmt env (.block span body)).Sat s fun _ s' => After env s s' := by
  rw [lowerStmt]
  refine Sat.modify_bind (Sat.bind (hbody h.toOk.push) fun _ s₁ a => ?_)
  have hscope : s₁.scope.pop = s.scope := congrArg Scope.mk a.outer
  show After env s { s₁ with scope := s₁.scope.pop }
  exact h.toOk.afterAs a.ok.builder a.ext hscope a.loops a.failed a.ok.reach

end

/-! ### Statements -/

mutual

theorem lowerStmt_after (env : Env) : (st : Stmt) → ∀ {s : State}, s.Live env →
    (lowerStmt env st).Sat s fun _ s' => After env s s'
  | .var sp name declared init => fun h => lowerVar_after h name declared (operand_ok env init) sp
  | .assign sp target value => fun h =>
    Sat.bind (runs_after h (lowerAssign_runs h target (operand_ok env value) sp).run)
      fun _ _ a => Sat.pure a
  | .expr _ e => fun h => runs_after h (visit_goes (operand_ok env e) h)
  | .cond sp chain => fun h => lowerCond_after h sp (lowerChain_ok env chain)
  | .loop sp cond body => fun h => lowerLoop_after h sp cond (lowerStmts_ok env body)
  | .ret sp value => fun h => lowerReturn_after h (by
      intro o ho
      obtain ⟨e, -, rfl⟩ := Option.map_eq_some_iff.1 ho
      exact operand_ok env e) sp
  | .brk sp => fun h => lowerLoopExit_after h _ (fun _ => .inr rfl) sp
  | .cont sp => fun h => lowerLoopExit_after h _ (fun _ => .inl rfl) sp
  | .block sp body => fun h => lowerBlock_after h sp (lowerStmts_ok env body)
termination_by structural st => st

theorem lowerStmts_ok (env : Env) : (ss : List Stmt) → BodyOk env ss
  | [], _ => fun h => Sat.pure (.refl h)
  | st :: rest, s => by
    intro h
    rw [lowerStmts]
    refine Sat.bind (positionIsDead_sat h) ?_
    rintro dead _ ⟨⟨reach, rfl, hr⟩, hopen, -⟩
    have hreach : After env s { s with reach } := ⟨h.withReach hr, .refl _, rfl, rfl, rfl, id⟩
    cases dead with
    | true =>
      refine Sat.bind (reportDead_after (h.withReach hr) st.span) fun _ s₁ a₁ => ?_
      exact (lowerStmts_ok env rest a₁.ok).imp fun _ _ a₂ => (hreach.trans a₁).trans a₂
    | false =>
      refine Sat.modify_bind ?_
      have hlive : ({ s with reach, deadReported := false } : State).Live env :=
        ⟨{ h with reach := hr }, h.builder, hopen rfl⟩
      have hstart : After env s { s with reach, deadReported := false } :=
        ⟨hlive.toOk, .refl _, rfl, rfl, rfl, id⟩
      refine Sat.bind (lowerStmt_after env st hlive) fun _ s₁ a₁ => ?_
      exact (lowerStmts_ok env rest a₁.ok).imp fun _ _ a₂ => (hstart.trans a₁).trans a₂
termination_by structural ss => ss

theorem lowerChain_ok (env : Env) : (chain : Chain) → ChainOk env chain
  | .done => fun h _ _ => Sat.pure ⟨.refl h, rfl⟩
  | .otherwise body => lowerOtherwise_ok (lowerStmts_ok env body)
  | .clause cond body rest =>
    lowerClause_ok cond (lowerStmts_ok env body) (lowerChain_ok env rest)
termination_by structural chain => chain

end

end BlockForge.Lowering
