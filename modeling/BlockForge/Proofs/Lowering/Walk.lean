import BlockForge.Proofs.Lowering.Completion
import BlockForge.Proofs.Lowering.Judgement

/-!
# Statements and positions

Whether a position is dead is looked up in a cache of reachable blocks, which is exact whenever it is up to
date. So lowering by reachability does the same as lowering by structure, if the two agree on where
control gets to; `Lower.Matches` puts the two side by side.
-/

namespace BlockForge.Lowering

open Diagnostic (Diag Queue)
open Ir (BlockId Builder Emit ValueId)
open Ir.Emit
open Source (Chain Expr Span Stmt TypeExpr Visit runStarts runsOn)
open Attempt (Judged Verdict)
open StateM
open BlockForge.Types (Ty)

/-! ### The cache of reachable blocks -/

/-- A cache that is up to date marks the blocks that control can get to, and no others. -/
def ReachCache.Exact (cache : ReachCache) (b : Builder) : Prop :=
  ∀ n, cache.terminators = some n → n ≤ b.terminators ∧ (n = b.terminators →
    ∀ i : BlockId, Ir.Marked cache.seen i.index ↔ b.function.Path Ir.Id.entry i)

theorem ReachCache.Exact.spreads {cache : ReachCache} {J : BlockId → Prop} {s b : Builder}
    (h : cache.Exact s) (k : Spreads J s b) : cache.Exact b := by
  intro n hn
  obtain ⟨hle, hmarked⟩ := h n hn
  have hterm := k.terminators
  refine ⟨by omega, fun heq i => ?_⟩
  have hend := k.steady (by omega)
  simp only [Ir.Function.Path, Ir.Function.succs, hend]
  exact hmarked (by omega) i

theorem isReachable_exact {cache : ReachCache} {b : Builder} (h : cache.Exact b) (hb : b.Placed)
    (i : BlockId) : (cache.isReachable b i).2.Exact b ∧
      ((cache.isReachable b i).1 = true ↔ b.function.Path Ir.Id.entry i) := by
  unfold ReachCache.isReachable
  split
  · rename_i heq
    exact ⟨h, (h _ heq).2 rfl i⟩
  · have hmarked := fun j => hb.bounded.reachable (i := j) hb.entry
    refine ⟨fun n hn => ?_, hmarked i⟩
    obtain rfl := Option.some.inj hn
    exact ⟨Nat.le_refl _, fun _ j => hmarked j⟩

/-- A position is dead exactly if it is not reached. -/
theorem positionIsDead_exact {s : State} (h : s.builder.Placed) (hr : s.reach.Exact s.builder) :
    ∃ dead reach, Lower.positionIsDead s = (dead, { s with reach }) ∧ reach.Exact s.builder ∧
      (dead = false ↔ s.builder.Reached) := by
  obtain ⟨c, hc, -⟩ := h.position
  have heq : Lower.positionIsDead s = if s.builder.hasTerminator c then (true, s)
      else if c = Ir.Id.entry then (false, s)
      else (!(s.reach.isReachable s.builder c).1,
        { s with reach := (s.reach.isReachable s.builder c).2 }) := by
    simp only [Lower.positionIsDead, bind, StateT.bind, get, getThe, MonadStateOf.get, StateT.get, pure,
      hc]
    split
    · rfl
    · split <;> rfl
  rw [heq, Builder.hasTerminator_eq]
  cases hopen : s.builder.function.ending c with
  | some t =>
    have hnot := Builder.not_reached_of_ended hc hopen
    exact ⟨true, s.reach, by simp, hr, by simp [hnot]⟩
  | none =>
    have hreached : s.builder.Reached ↔ s.builder.function.Path Ir.Id.entry c := by
      refine ⟨?_, fun hp => ⟨c, hc, hopen, hp⟩⟩
      rintro ⟨d, hd, -, hp⟩
      obtain rfl : c = d := Option.some.inj (hc.symm.trans hd)
      exact hp
    simp only [Option.isSome_none, Bool.false_eq_true, if_false]
    split
    · rename_i he
      refine ⟨false, s.reach, rfl, hr, ?_⟩
      simp only [true_iff, hreached, he]
      exact .refl
    · obtain ⟨hexact, hpath⟩ := isReachable_exact hr h c
      refine ⟨_, _, rfl, hexact, ?_⟩
      rw [hreached, ← hpath]
      simp

/-! ### Side by side -/

namespace Lower

variable {α β : Type} {s s' : State}

/-- From `s`, whatever was reported and cached before, gives `a`, ends in `s'` and submits `log`. -/
def Moves (x : Lower α) (s : State) (a : α) (s' : State) (log : List Diag) : Prop :=
  ∀ q r, x { s with diags := q, reach := r } =
    (a, { s' with diags := q.submit log, reach := r })

/-- `y` goes from `s` to `s'`, and so does `x` with a cache that is exact. -/
structure Matches (x y : Lower α) (s : State) (a : α) (s' : State) (log : List Diag) : Prop where
  cached : ∀ q r, r.Exact s.builder → ∃ r', x { s with diags := q, reach := r } =
    (a, { s' with diags := q.submit log, reach := r' }) ∧ r'.Exact s'.builder
  direct : y.Moves s a s' log

theorem Moves.bind {x : Lower α} {f : α → Lower β} {a : α} {c : β} {s₁ s₂ : State}
    {l₁ l₂ : List Diag} (h : x.Moves s a s₁ l₁) (k : (f a).Moves s₁ c s₂ l₂) :
    (x >>= f).Moves s c s₂ (l₁ ++ l₂) := by
  intro q r
  show f (x _).1 (x _).2 = _
  rw [h q r, Queue.submit_append]
  exact k (q.submit l₁) r

theorem Matches.bind {x y : Lower α} {f g : α → Lower β} {a : α} {c : β} {s₁ s₂ : State}
    {l₁ l₂ : List Diag} (h : x.Matches y s a s₁ l₁) (k : (f a).Matches (g a) s₁ c s₂ l₂) :
    (x >>= f).Matches (y >>= g) s c s₂ (l₁ ++ l₂) where
  cached q r hr := by
    obtain ⟨r₁, h₁, hr₁⟩ := h.cached q r hr
    obtain ⟨r₂, h₂, hr₂⟩ := k.cached (q.submit l₁) r₁ hr₁
    refine ⟨r₂, ?_, hr₂⟩
    show f (x _).1 (x _).2 = _
    rw [h₁, Queue.submit_append]
    exact h₂
  direct := h.direct.bind k.direct

/-- Code that does not look at the cache does the same on both sides. -/
theorem Moves.same {x : Lower α} {a : α} {log : List Diag} {J : BlockId → Prop}
    (h : x.Moves s a s' log) (k : Spreads J s.builder s'.builder) : x.Matches x s a s' log :=
  ⟨fun q r hr => ⟨r, h q r, hr.spreads k⟩, h⟩

theorem Yields.moves {x : Lower α} {a : α} {b : Builder} {log : List Diag}
    (h : x.Yields s.scope s.builder a b log) : x.Moves s a { s with builder := b } log :=
  fun q r => h { s with diags := q, reach := r } rfl rfl

theorem Matches.pure (a : α) : (Pure.pure a : Lower α).Matches (Pure.pure a) s a s [] :=
  Moves.same (J := fun _ => False) (fun _ _ => rfl) (.refl _)

theorem moves_emit {e : Emit α} {a : α} {b : Builder} (h : e s.builder = (a, b)) :
    (emit e).Moves s a { s with builder := b } [] := (yields_emit h).moves

theorem matches_emit {e : Emit α} {a : α} {b : Builder} {J : BlockId → Prop}
    (h : e s.builder = (a, b)) (k : Spreads J s.builder b) :
    (emit e).Matches (emit e) s a { s with builder := b } [] := Moves.same (moves_emit h) k

/-- The position moves, and with it nothing that the cache depends on. -/
theorem matches_positionAt {y : BlockId} (hy : y.index < s.builder.function.blocks.size) :
    (emit (Emit.positionAt y)).Matches (emit (Emit.positionAt y)) s ()
      { s with builder := { s.builder with current := some y } } [] :=
  ⟨fun q r hr => ⟨r, moves_emit (positionAt_eq hy) q r, hr⟩, moves_emit (positionAt_eq hy)⟩

/-- A change of something other than the builder, the queue and the cache. -/
theorem matches_modify {f : State → State}
    (hf : ∀ q r, f { s with diags := q, reach := r } = { f s with diags := q, reach := r })
    (hb : (f s).builder = s.builder) : (modify f : Lower Unit).Matches (modify f) s () (f s) [] := by
  refine Moves.same (J := fun _ => False) (fun q r => ?_) (by rw [hb]; exact .refl _)
  exact congrArg (Prod.mk ()) (hf q r)

/-- A decision by reachability against one by structure. -/
theorem matches_decide {f : Bool → Lower β} {y : Lower β} {live : Bool} {c : β} {log : List Diag}
    (hp : s.builder.Placed) (hl : s.builder.Reached ↔ live = true)
    (h : (f !live).Matches y s c s' log) : (positionIsDead >>= f).Matches y s c s' log where
  cached q r hr := by
    obtain ⟨dead, reach, hd, hexact, hdead⟩ :=
      positionIsDead_exact (s := { s with diags := q, reach := r }) hp hr
    have hnot : dead = !live := by
      rw [hl] at hdead
      cases dead <;> cases live <;> simp_all
    obtain ⟨r', h', hr'⟩ := h.cached q reach hexact
    refine ⟨r', ?_, hr'⟩
    show f (positionIsDead _).1 (positionIsDead _).2 = _
    rw [hd, hnot]
    exact h'
  direct := h.direct

theorem matches_branch {live : Bool} {target : BlockId} {b : Builder} {J : BlockId → Prop}
    (hp : s.builder.Placed) (hl : s.builder.Reached ↔ live = true)
    (hb : (if live then Emit.br target else pure ()) s.builder = ((), b))
    (k : Spreads J s.builder b) :
    (branchIfLive target).Matches (branchIf live target) s () { s with builder := b } [] := by
  refine matches_decide hp hl ?_
  cases live with
  | true => exact matches_emit hb k
  | false =>
    obtain rfl : s.builder = b := congrArg Prod.snd hb
    exact .pure ()

end Lower

end BlockForge.Lowering
