import BlockForge.Proofs.Machine.Merging
import BlockForge.Proofs.Simulation.Binary

/-!
# Short circuits

Running the code of `and` and `or`: the right operand is evaluated only if the left one does not decide, and the
merge takes the value of the edge along which control comes.
-/

namespace BlockForge.Simulation

open Ir (BlockId Builder Emit ValueId)
open Ir.Emit (Appended Forked Fresh Halted Onward Preds)
open Lowering (Env Scope Typed)
open Machine (At Exec Holds Merges Moved Part Stays Toward Val World)
open Reference (Caller Datum Heap Locals Result Sem Value)
open Source (BinaryOp Expr)
open StateM
open BlockForge.Types (Ty)

/-! ### Blocks -/

/-- The branch behind the left operand. -/
def branching (isAnd : Bool) (x : ValueId) (rhs merge : BlockId) : Ir.Terminator :=
  .condBr x (if isAnd then rhs else merge) (if isAnd then merge else rhs)

/-- What is emitted between the operands: two blocks, and a branch to them. -/
structure Opens (isAnd : Bool) (x : ValueId) (rhs merge : BlockId) (b b₁ b₂ b₃ b₄ : Builder) : Prop where
  rhsNew : Appended b b₁ rhs
  mergeNew : Appended b₁ b₂ merge
  ended : Halted b₂ b₃ (branching isAnd x rhs merge)
  onward : Onward b b₄
  fresh : Fresh b₄ merge
  at_rhs : b₄ = { b₃ with current := some rhs }
  forked : ∃ t, Forked b b₃ t rhs merge

section

variable {isAnd : Bool} {x : ValueId} {rhs merge origin exit : BlockId} {b b₁ b₂ b₃ b₄ b₅ b₆ b₇ b₈ b' : Builder}

theorem opens_of_eq (hb : b.Live) (hx : b.function.Has x .i1) {m n : String}
    (h₁ : Emit.appendBlock m b = (rhs, b₁)) (h₂ : Emit.appendBlock n b₁ = (merge, b₂))
    (h₃ : (if isAnd then Emit.condBr x rhs merge else Emit.condBr x merge rhs) b₂ = ((), b₃))
    (h₄ : Emit.positionAt rhs b₃ = ((), b₄)) : Opens isAnd x rhs merge b b₁ b₂ b₃ b₄ := by
  have a₁ := (Ir.Emit.appendBlock_appended hb m).of_eq h₁
  have a₂ := (Ir.Emit.appendBlock_appended a₁.live n).of_eq h₂
  have hx₂ := a₂.has (a₁.has hx)
  have hhalt : Halted b₂ b₃ (branching isAnd x rhs merge) := by
    cases isAnd with
    | true => exact (Ir.Emit.condBr_fresh a₂.live hx₂ (a₁.fresh.ext a₂.ext) a₂.fresh).of_eq h₃
    | false => exact (Ir.Emit.condBr_fresh a₂.live hx₂ a₂.fresh (a₁.fresh.ext a₂.ext)).of_eq h₃
  have fork : Forked b b₃ (branching isAnd x rhs merge) rhs merge :=
    Ir.Emit.forked a₁ a₂ hhalt (by
      unfold branching
      split
      · exact .inl rfl
      · exact .inr rfl)
  obtain ⟨o, fresh, he⟩ := fork.enterLeft.of_eq h₄
  exact ⟨a₁, a₂, hhalt, o, fresh, he, _, fork⟩

namespace Opens

variable (h : Opens isAnd x rhs merge b b₁ b₂ b₃ b₄)

include h

theorem merge_ne_entry (hb : b.Live) : merge ≠ Ir.Id.entry := by
  rintro rfl
  obtain ⟨c, hc, -⟩ := hb.isOpen
  obtain ⟨_, fork⟩ := h.forked
  have := fork.rightNew
  have := Ir.Emit.lt_size_of_ending hb hc
  simp only [Ir.Id.entry] at *
  omega

/-- The right operand ends in another block than the left one. -/
theorem exit_ne (hb : b.Live) (hc : b.current = some origin) (o : Onward b₄ b₅) (he : b₅.current = some exit) :
    exit ≠ origin := by
  rintro rfl
  have hlt : exit.index < rhs.index := by
    rw [h.rhsNew.isNext]
    exact Ir.Emit.lt_size_of_ending hb hc
  rcases o.ext.current with hcur | ⟨c, hcur, hle⟩
  · rw [he, h.at_rhs] at hcur
    cases hcur
    exact Nat.lt_irrefl _ hlt
  · rw [he] at hcur
    cases hcur
    have hold := Ir.Emit.lt_size_of_ending hb hc
    exact Nat.lt_irrefl _ (Nat.lt_of_lt_of_le (Nat.lt_of_lt_of_le hold h.onward.ext.grows.size) hle)

end Opens

/-- What is emitted behind the right operand: a branch to the merge, and the merge. -/
structure Closes (isAnd : Bool) (y : ValueId) (origin exit merge : BlockId) (b₅ b₆ b₇ b₈ b' : Builder)
    (short a : ValueId) : Prop where
  ended : Halted b₅ b₆ (.br merge)
  at_merge : b₇ = { b₆ with current := some merge }
  declared : Emit.Declared b₇ b₈ short ⟨.i1, .constInt (if isAnd then 0 else 1), ""⟩
  constant : Onward b₇ b₈
  merges : Merges b₈ b' merge a .i1 [(short, origin), (y, exit)]
  later : b₈.Later b'
  size : b'.function.blocks.size = b₈.function.blocks.size
  others : ∀ i, i ≠ merge → b'.function.body i = b₈.function.body i

variable {y short a : ValueId}

theorem Opens.closes (h : Opens isAnd x rhs merge b b₁ b₂ b₃ b₄) (hb : b.Live) (hc : b.current = some origin)
    (o : Onward b₄ b₅) (hy : b₅.function.Has y .i1) (he : b₅.current = some exit) {word : String}
    (h₅ : Emit.br merge b₅ = ((), b₆)) (h₆ : Emit.positionAt merge b₆ = ((), b₇))
    (h₇ : Emit.constBool (!isAnd) b₇ = (short, b₈))
    (ha : Emit.phi .i1 [(short, origin), (y, exit)] word b₈ = (a, b')) :
    Closes isAnd y origin exit merge b₅ b₆ b₇ b₈ b' short a ∧ Onward b b' ∧ b'.function.Has a .i1 := by
  obtain ⟨_, fork⟩ := h.forked
  have hentry := h.merge_ne_entry hb
  obtain ⟨_, hcur, hopen⟩ := o.live.isOpen
  obtain rfl := Option.some.inj (he.symm.trans hcur)
  have fresh₅ : Fresh b₅ merge := h.fresh.ext o.ext
  have preds₄ : Preds b₄ merge [origin] := h.at_rhs ▸ fork.rightPreds hc
  have preds₅ : Preds b₅ merge [origin] := preds₄.within o.toWithin h.fresh.lt_size
  have halt := (Ir.Emit.br_halted o.live fresh₅.lt_size fresh₅.noPhi).of_eq h₅
  have preds₆ : Preds b₆ merge [exit, origin] := by
    simpa [Ir.Terminator.successors] using halt.preds preds₅ he hopen
  have within₆ := halt.within (h.onward.toWithin.trans o.toWithin)
    (by simpa [Ir.Terminator.successors] using fork.rightNew)
  have fresh₆ := fresh₅.ext halt.ext
  obtain ⟨o₇, hb₇⟩ := (Ir.Emit.positionAt_fresh halt.ok within₆ fresh₆ fork.rightNew
    (fork.pathRight (h.at_rhs ▸ o.ext.trans halt.ext))).of_eq h₆
  have decl : Emit.Declared b₇ b₈ short ⟨.i1, .constInt (if isAnd then 0 else 1), ""⟩ := by
    have := (Ir.Emit.pushValue_declared o₇.live _ _ _).of_eq (show Ir.Emit.pushValue _ _ _ b₇ = _ from h₇)
    cases isAnd <;> exact this
  obtain ⟨o₈, hshort⟩ := (Ir.Emit.constBool_onward o₇.live _).of_eq h₇
  have hcur₈ : b₈.current = some merge := by rw [decl.current, hb₇]
  obtain ⟨val, hfun⟩ : ∃ val, b₈.function = b₆.function.addValue val := ⟨_, by rw [decl.function, hb₇]; rfl⟩
  have hempty : b₈.function.body merge = [] := by
    rw [hfun]
    exact fresh₆.empty
  have hy₈ : b₈.function.Has y .i1 := by
    rw [hfun]
    exact (Ir.Function.grows_addValue _ _).has (halt.ext.has hy)
  have hedges : ∀ j, j ∈ ([(short, origin), (y, exit)] : List (ValueId × BlockId)).map (·.2) ↔
      merge ∈ b₈.function.succs j := by
    intro j
    rw [hfun]
    show _ ↔ merge ∈ b₆.function.succs j
    rw [preds₆ j]
    simp [or_comm]
  obtain ⟨live', hv, hwithin, hgrows, hcur', -⟩ := (Ir.Emit.phi_onward o₈.live hcur₈ hentry hempty rfl
    (by simp [hshort, hy₈]) (by simpa using (h.exit_ne hb hc o he).symm) hedges).of_eq ha
  obtain ⟨merges, later, size, others⟩ := (Machine.phi_merges o₈.live hcur₈ hentry hempty _ _ _).of_eq ha
  refine ⟨⟨halt, hb₇, decl, o₈, merges, later, size, others⟩,
    ⟨hwithin _ (o₇.trans o₈).toWithin fork.rightNew, live', ?_⟩, hv⟩
  intro c d hc' hd
  rw [hcur'] at hd
  cases hd
  exact hgrows.path ((o₇.trans o₈).path hc' hcur₈)

theorem branching_taken {isAnd t : Bool} {rhs merge : BlockId} :
    (if t then (if isAnd then rhs else merge) else if isAnd then merge else rhs) =
      if t = isAnd then rhs else merge := by
  cases isAnd <;> cases t <;> rfl

namespace Closes

variable {b₅ b₆ b₇ b₈ b' : Builder}
  (h : Closes isAnd y origin exit merge b₅ b₆ b₇ b₈ b' short a)

include h

theorem toMerge : b₆.Later b₈ := by
  have hmoved : b₆.Later b₇ := h.at_merge ▸ Ir.Builder.later_moveTo b₆ merge
  exact hmoved.trans h.constant.ext.toLater

theorem after : b₅.Later b' := h.ended.ext.toLater.trans (h.toMerge.trans h.later)

/-- Only the new merge merges. -/
theorem noPhi {i : BlockId} (hi : i.index < b₅.function.blocks.size) (hn : b₅.function.NoPhi i) (hm : i ≠ merge) :
    b'.function.NoPhi i := by
  have h₆ := h.ended.ext.noPhi i hi hn
  have h₇ : b₇.function.NoPhi i := by
    rw [h.at_merge]
    exact h₆
  have hlt : i.index < b₇.function.blocks.size := by
    rw [h.at_merge]
    exact Nat.lt_of_lt_of_le hi h.ended.ext.grows.size
  have h₈ := h.constant.ext.noPhi i hlt h₇
  intro inst hinst
  rw [h.others i hm] at hinst
  exact h₈ inst hinst

variable {w : World} {M : Machine.State}

/-- Control comes to the merge along one of its two edges. -/
theorem enters (hp : Part b' w) (hentry : merge ≠ Ir.Id.entry) (hlt : merge.index < b₇.function.blocks.size)
    (hne : exit ≠ origin) (hfunc : M.frame.func = w.func) (hregs : M.frame.regs.size = w.func.values.size) {q : Bool}
    (hedge : M.frame.block = origin ∧ q = !isAnd ∨ M.frame.block = exit ∧ M.frame.value? y = some (.bool q)) :
    ∃ M', Exec.enterBlock w.module merge (some M.frame.block) M = .ok () M' ∧ At w.func b' M' ∧
      M'.store = M.store ∧ Stays w.func b₈.function.values.size M M' ∧ Holds b' M' a (.bool q) := by
  have hlt' : merge.index < b'.function.blocks.size := by
    rw [h.size]
    exact Nat.lt_of_lt_of_le hlt h.constant.ext.grows.size
  rcases hedge with ⟨hblock, rfl⟩ | ⟨hblock, hy⟩
  · have hshort := Machine.Declared.int h.declared (hp.before h.later) hfunc
    have hvalue : Val.int (if isAnd then 0 else 1) = .bool !isAnd := by cases isAnd <;> rfl
    rw [hblock]
    refine h.merges.enter hp hentry hlt' hfunc hregs ?_ (hvalue ▸ hshort.value)
    simp
  · rw [hblock]
    refine h.merges.enter hp hentry hlt' hfunc hregs ?_ hy
    simp [hne.symm]

end Closes

/-! ### Runs -/

/-- The code of `and` and `or` around the operands. -/
structure Around (isAnd : Bool) (x y : ValueId) (origin exit rhs merge : BlockId)
    (b b₁ b₂ b₃ b₄ b₅ b₆ b₇ b₈ b' : Builder) (short a : ValueId) : Prop where
  live : b.Live
  atOrigin : b.current = some origin
  opens : Opens isAnd x rhs merge b b₁ b₂ b₃ b₄
  right : Onward b₄ b₅
  atExit : b₅.current = some exit
  closes : Closes isAnd y origin exit merge b₅ b₆ b₇ b₈ b' short a
  onward : Onward b b'

namespace Around

variable {b₅ b₆ b₇ b₈ b' : Builder} (h : Around isAnd x y origin exit rhs merge b b₁ b₂ b₃ b₄ b₅ b₆ b₇ b₈ b' short a)
  {w : World} {M : Machine.State}

include h

theorem later₅ : b.Later b₅ := h.opens.onward.ext.toLater.trans h.right.ext.toLater

theorem later₈ : b.Later b₈ := h.later₅.trans (h.closes.ended.ext.toLater.trans h.closes.toMerge)

theorem part (hp : Part b' w) : Part b₃ w := by
  have hmoved : b₃.Later b₄ := h.opens.at_rhs ▸ Ir.Builder.later_moveTo b₃ rhs
  exact hp.before (hmoved.trans (h.right.ext.toLater.trans h.closes.after))

theorem merge_lt : merge.index < b₇.function.blocks.size := by
  rw [h.closes.at_merge]
  exact Nat.lt_of_lt_of_le (h.opens.fresh.ext h.right.ext).lt_size h.closes.ended.ext.grows.size

theorem exit_ne : exit ≠ origin := h.opens.exit_ne h.live h.atOrigin h.right h.atExit

/-- The new blocks but for the merge do not merge. -/
theorem plain (ht : Toward b b' w) {i : BlockId} (hle : b.function.blocks.size ≤ i.index)
    (hlt : i.index < b₅.function.blocks.size) (hn : b₅.function.NoPhi i) (hm : i ≠ merge) : w.func.NoPhi i :=
  ht.plain i hle (Nat.lt_of_lt_of_le hlt h.closes.after.grows.size) (h.closes.noPhi hlt hn hm)

theorem toward (ht : Toward b b' w) : Toward b₄ b₅ w := by
  refine ⟨ht.toPart.before h.closes.after, fun i hle hlt hn => h.plain ht ?_ hlt hn ?_⟩
  · exact Nat.le_trans h.opens.onward.ext.grows.size hle
  · rintro rfl
    exact Nat.lt_irrefl _ (Nat.lt_of_lt_of_le h.opens.fresh.lt_size hle)

/-- The branch behind the left operand. -/
theorem step (hp : Part b' w) (hM : At w.func b M) {t : Bool} (hx : Holds b M x (.bool t)) {M' : Machine.State}
    (he : Exec.enterBlock w.module (if t = isAnd then rhs else merge) (some M.frame.block) M = .ok () M') :
    Exec.step w.module w.limit M = .ok none M' ∧ M.frame.code.insts[M.frame.next]? = none := by
  have m₁ := Machine.Appended.moved h.opens.rhsNew hM
  have m₂ := m₁.trans (Machine.Appended.moved h.opens.mergeNew m₁.toAt)
  refine ⟨Machine.Halted.step_enter h.opens.ended (h.part hp) m₂.toAt (m₂.holds hx) ?_,
    (Machine.Halted.atEnd h.opens.ended (h.part hp) m₂.toAt).1⟩
  rw [branching_taken]
  exact he

/-- A left operand that does not decide leads to the right one. -/
theorem evaluates (ht : Toward b b' w) (hM : At w.func b M) {t : Bool} (hx : Holds b M x (.bool t)) (htaken : t = isAnd)
    (k : ∀ M', Moved w.func b M b₄ M' → M'.store = M.store → w.goal M') : w.goal M := by
  obtain ⟨_, fork⟩ := h.opens.forked
  have hfun : b₄.function = b₃.function := by
    rw [h.opens.at_rhs]
    rfl
  have hrhs : rhs.index < b₄.function.blocks.size := hfun ▸ fork.left.lt_size
  have hno : w.func.NoPhi rhs := h.plain ht fork.leftNew (Nat.lt_of_lt_of_le hrhs h.right.ext.grows.size)
    (h.right.ext.noPhi rhs hrhs (hfun ▸ fork.left.noPhi)) fork.ne
  have hentry : rhs ≠ Ir.Id.entry := by
    rintro rfl
    have := fork.leftNew
    have := Ir.Emit.lt_size_of_ending h.live h.atOrigin
    simp only [Ir.Id.entry] at *
    omega
  have m₁ := Machine.Appended.moved h.opens.rhsNew hM
  have m₂ := m₁.trans (Machine.Appended.moved h.opens.mergeNew m₁.toAt)
  refine Machine.Halted.branch h.opens.ended (h.part ht.toPart) m₂.toAt (m₂.holds hx) (d := b₄)
    (branching_taken.trans (if_pos htaken)) hentry hno (hfun ▸ hrhs) (by rw [h.opens.at_rhs]) ?_ ?_
    fun M' m hst => k M' (m₂.trans m) hst
  · rw [hfun]
    exact fork.left.empty
  · rw [hfun]
    exact h.opens.ended.ext.grows.valuesSize

/-- A left operand that decides is the result. -/
theorem skips (hp : Part b' w) (hM : At w.func b M) {t : Bool} (hx : Holds b M x (.bool t)) (htaken : t ≠ isAnd)
    (k : ∀ M', Moved w.func b M b' M' → M'.store = M.store → Holds b' M' a (.bool t) → w.goal M') : w.goal M := by
  have hq : t = !isAnd := by cases t <;> cases isAnd <;> simp_all
  have hblock : M.frame.block = origin := Option.some.inj (hM.block.symm.trans h.atOrigin)
  obtain ⟨M', henter, hat, hst, hstays, ha⟩ := h.closes.enters hp (h.opens.merge_ne_entry h.live) h.merge_lt h.exit_ne
    hM.func hM.regs (.inl ⟨hblock, hq⟩)
  obtain ⟨hstep, hend⟩ := h.step hp hM hx (by rw [if_neg htaken]; exact henter)
  exact w.back hstep (fun _ => Machine.careful_of_end hend) fun _ =>
    k M' ⟨hat, hstays.mono h.later₈.grows.valuesSize, h.onward.ext.grows.valuesSize⟩ hst ha

/-- Behind the right operand control comes to the merge. -/
theorem merges (hp : Part b' w) (hM : At w.func b₅ M) {q : Bool} (hy : Holds b₅ M y (.bool q))
    (k : ∀ M', Moved w.func b₅ M b' M' → M'.store = M.store → Holds b' M' a (.bool q) → w.goal M') : w.goal M := by
  have hblock : M.frame.block = exit := Option.some.inj (hM.block.symm.trans h.atExit)
  obtain ⟨M', henter, hat, hst, hstays, ha⟩ := h.closes.enters hp (h.opens.merge_ne_entry h.live) h.merge_lt h.exit_ne
    hM.func hM.regs (.inr ⟨hblock, hy.value⟩)
  obtain ⟨hend, hterm⟩ := Machine.Halted.atEnd h.closes.ended (hp.before (h.closes.toMerge.trans h.closes.later)) hM
  have hle := (h.closes.ended.ext.toLater.trans h.closes.toMerge).grows.valuesSize
  exact w.back (Machine.step_br hend hterm henter) (fun _ => Machine.careful_of_end hend) fun _ =>
    k M' ⟨hat, hstays.mono hle, h.closes.after.grows.valuesSize⟩ hst ha

end Around

/-- The value of a condition. -/
theorem Denotes.bool {S : Scene} {b : Builder} {M : Machine.State} {g : Ground} {x : Typed} {d : Datum}
    (hx : x.ty = .bool) (h : d.type = x.ty ∧ Denotes S b M g x.value d) :
    ∃ t, d = ⟨.bool t, .bool⟩ ∧ Holds b M x.value (.bool t) := by
  obtain ⟨value, type⟩ := d
  obtain ⟨htype, hd⟩ := h
  obtain rfl : type = .bool := htype.trans hx
  obtain ⟨v, hv, hev⟩ := hd.holds (by simp)
  obtain ⟨t, ht, rfl⟩ := hev.bool
  exact ⟨t, congrArg (Datum.mk · .bool) ht, hv⟩

theorem follows_shortCircuit {env : Env} {scope : Scope} {b₀ : Builder} {x y : Typed} {op : BinaryOp}
    {mean mean' : Caller → String → Locals → Sem Datum} (hl : Follows env scope b₀ x b mean) (hx : x.ty = .bool)
    (hr : Follows env scope b₄ y b₅ mean') (hy : y.ty = .bool)
    (h : Around (op == .and) x.value y.value origin exit rhs merge b b₁ b₂ b₃ b₄ b₅ b₆ b₇ b₈ b' short a)
    (ha : b'.function.Has a .i1) :
    Follows env scope b₀ ⟨a, .bool⟩ b' fun call func ρ => do
      let d ← mean call func ρ
      let t ← Reference.asBool d
      if t = (op == .and) then mean' call func ρ else pure ⟨.bool t, .bool⟩ where
  onward := hl.onward.trans h.onward
  has := ha
  runs {S ρ g H M} hS henv ht hM hst := by
    refine (hl.runs hS henv (ht.before h.onward.ext) hM hst).bind fun {d H₁ g₁ M₁} a₁ hd => ?_
    obtain ⟨t, rfl, hv⟩ := Denotes.bool hx hd
    have ht₁ := ht.since hl.onward.ext.toLater
    show Leads S scope ρ b M₁ g₁ b' ((if t = (op == .and) then mean' S.call S.world.func.name ρ
      else pure ⟨.bool t, .bool⟩) H₁) _
    split
    · rename_i htaken
      intro hall
      refine h.evaluates ht₁ a₁.moved.toAt hv htaken fun M₂ m₂ hst₂ => ?_
      refine hr.runs hS henv (h.toward ht₁) m₂.toAt (a₁.stands.stays hS.toReady m₂.stays hst₂)
        (hall.imp (fun d H₂ hk g₂ M₃ a₃ hd₃ => ?_) fun _ _ hs => hs)
      obtain ⟨q, rfl, hq⟩ := Denotes.bool hy hd₃
      refine h.merges ht₁.toPart a₃.moved.toAt hq fun M' m hst' hv' => ?_
      exact hk ⟨(m₂.trans a₃.moved).trans m, a₃.stands.stays hS.toReady m.stays hst', a₃.grows⟩
        ⟨rfl, .of_holds hv' ⟨rfl, rfl⟩⟩
    · rename_i htaken
      refine fun hall => h.skips ht₁.toPart a₁.moved.toAt hv htaken fun M' m hst' hv' => ?_
      exact hall ⟨m, a₁.stands.stays hS.toReady m.stays hst', List.prefix_refl _⟩ ⟨rfl, .of_holds hv' ⟨rfl, rfl⟩⟩

end

end BlockForge.Simulation
