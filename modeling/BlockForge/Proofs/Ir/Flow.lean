import BlockForge.Proofs.Ir.Emission

/-!
# Control flow

Operations of the builder that make blocks, end them, move the position, and put stack slots and
merges in front. A block is `Fresh` until the position comes to it; a merge needs all `Preds` of its
block to be known.
-/

namespace BlockForge.Ir

namespace Emit

open Builder StateM

/-! ### Blocks -/

/-- A block that is still empty and open, and not at the position. -/
structure Fresh (b : Builder) (i : BlockId) : Prop where
  lt_size : i.index < b.function.blocks.size
  isOpen : b.function.ending i = none
  empty : b.function.body i = []
  away : b.current ≠ some i

/-- The blocks that lead to a block. -/
def Preds (b : Builder) (i : BlockId) (js : List BlockId) : Prop :=
  ∀ j, i ∈ b.function.succs j ↔ j ∈ js

namespace Fresh

variable {b b' : Builder} {i : BlockId} (h : Fresh b i)

include h

theorem noPhi : b.function.NoPhi i := Function.noPhi_of_body_eq_nil h.empty

theorem ext (k : b.Ext b') : Fresh b' i := by
  obtain ⟨hb, he⟩ := k.keep i h.lt_size h.away
  refine ⟨Nat.lt_of_lt_of_le h.lt_size k.grows.size, he.trans h.isOpen, hb.trans h.empty, ?_⟩
  rcases k.current with hc | ⟨c, hc, hle⟩
  · rw [hc]
    exact h.away
  · rw [hc]
    intro he
    cases he
    exact Nat.lt_irrefl _ (Nat.lt_of_lt_of_le h.lt_size hle)

/-- The position goes elsewhere. -/
theorem moved {t : BlockId} (ht : t ≠ i) : Fresh { b with current := some t } i :=
  ⟨h.lt_size, h.isOpen, h.empty, fun he => ht (Option.some.inj he)⟩

end Fresh

theorem Preds.within {b b' : Builder} {i : BlockId} {js : List BlockId} (h : Preds b i js)
    (k : Within b b') (hi : i.index < b.function.blocks.size) : Preds b' i js := by
  intro j
  rw [← h j]
  exact ⟨k.edges hi, k.ext.grows.succs⟩

theorem appendBlock_ok {b : Builder} (h : b.Ok) (name : String) :
    (appendBlock name).Sat b fun i b' => b'.Ok ∧ b.Ext b' ∧ b'.current = b.current ∧
      i = ⟨b.function.blocks.size⟩ ∧ b'.function = b.function.addBlock name := by
  have hg := Function.grows_addBlock b.function name
  have hfun := function_modifyFunction h.valid (·.addBlock name)
  refine ⟨h.modifyFunction hg (h.function.addBlock name), ?_, rfl, rfl, hfun⟩
  refine ext_modifyFunction h.valid 0 hg ?_ ?_ (fun _ => Function.ending_addBlock ..)
  · intro i _ _
    exact ⟨congrFun (Function.body_addBlock b.function name) i,
      congrFun (Function.ending_addBlock b.function name) i⟩
  · intro i _ hn
    show ∀ inst ∈ (b.function.addBlock name).body i, inst.kind.isPhi = false
    rw [Function.body_addBlock]
    exact hn

/-- A new block has been made: the next one, with nothing leading to it. -/
structure Appended (s b : Builder) (i : BlockId) : Prop extends Onward s b where
  fresh : Fresh b i
  preds : Preds b i []
  current : b.current = s.current
  isNext : i = ⟨s.function.blocks.size⟩
  body : b.function.body = s.function.body
  ending : b.function.ending = s.function.ending

theorem appendBlock_appended {b : Builder} (h : b.Live) (name : String) :
    (appendBlock name).Sat b fun i b' => Appended b b' i := by
  refine (appendBlock_ok h.ok name).imp ?_
  rintro i b' ⟨hok, hext, hcur, rfl, hfun⟩
  have hend : b'.function.ending = b.function.ending := by rw [hfun, Function.ending_addBlock]
  have hbody : b'.function.body = b.function.body := by rw [hfun, Function.body_addBlock]
  obtain ⟨c, hc, ho⟩ := h.isOpen
  have hlt := lt_size_of_ending h hc
  refine ⟨.stay (within_of_ending hext hend) ⟨hok, c, hcur.trans hc, by rw [hend]; exact ho⟩ hcur,
    ⟨?_, ?_, ?_, ?_⟩, ?_, hcur, rfl, hbody, hend⟩
  · simp [hfun, Function.addBlock]
  · rw [hend]
    exact Function.ending_eq_none (Nat.le_refl _)
  · rw [hbody]
    exact Function.body_eq_nil (Nat.le_refl _)
  · rw [hcur, hc]
    intro he
    cases he
    exact Nat.lt_irrefl _ hlt
  · intro j
    simp only [List.not_mem_nil, iff_false, Function.succs, hend]
    cases ht : b.function.ending j with
    | none => simp
    | some t =>
      intro hmem
      exact Nat.lt_irrefl _ ((h.ok.function.terms ht).lt_size _ (by simpa using hmem))

/-- The position moves to an open block. -/
theorem positionAt_live {b : Builder} (h : b.Ok) {t : BlockId}
    (ht : t.index < b.function.blocks.size) (ho : b.function.ending t = none) :
    (positionAt t).Sat b fun _ b' => b'.Live ∧ b' = { b with current := some t } := by
  refine demand_bind (by simpa using ht) ?_
  refine ⟨⟨⟨h.valid, h.whole, ⟨t, rfl, ht⟩, h.hosts, h.function⟩, t, rfl, ho⟩, rfl⟩

/-- Ending the current block. -/
theorem terminate_ok {b : Builder} (h : b.Live) {t : Terminator} (ht : t.Ok b.function)
    (hn : ∀ i ∈ t.successors, b.function.NoPhi i) :
    (terminate t).Sat b fun _ b' => b'.Ok ∧ b.Ext b' ∧ b'.current = b.current ∧
      ∃ c, b.current = some c ∧ b'.function = b.function.setEnding c t := by
  obtain ⟨c, hc, ho⟩ := h.isOpen
  have hlt := lt_size_of_ending h hc
  have hg := Function.grows_setEnding hlt ho t
  have hfun := function_modifyFunction h.ok.valid (·.setEnding c t)
  have hterm : b.hasTerminator c = false := by rw [hasTerminator_eq, ho]; rfl
  have heq : terminate t b = ((), { b.modifyFunction (·.setEnding c t) with
      terminators := b.terminators + 1 }) := by
    have h₁ : closeBlock c t b = (true, { b.modifyFunction (·.setEnding c t) with
        terminators := b.terminators + 1 }) := by
      simp only [closeBlock, hterm]
      rfl
    simp only [terminate, bind, StateT.bind, get, getThe, MonadStateOf.get, StateT.get, pure, hc, h₁]
    rfl
  have hok : (b.modifyFunction (·.setEnding c t)).Ok :=
    h.ok.modifyFunction hg (h.ok.function.setEnding hlt ho ht hn)
  have hext : b.Ext { b.modifyFunction (·.setEnding c t) with
      terminators := b.terminators + 1 } := by
    refine ext_modifyFunction h.ok.valid 1 hg ?_ ?_ (by simp)
    · intro i _ hne
      have hic : i ≠ c := fun he => hne (he ▸ hc)
      rw [Function.body_setEnding, Function.ending_setEnding hlt, if_neg hic]
      exact ⟨rfl, rfl⟩
    · intro i _ hni
      simpa [Function.NoPhi] using hni
  unfold Sat
  rw [heq]
  exact ⟨⟨hok.valid, hok.whole, hok.position, hok.hosts, hok.function⟩, hext, rfl, c, hc, hfun⟩

/-- The current block ends with `t`; nothing else happens. -/
structure Halted (s b : Builder) (t : Terminator) : Prop where
  ok : b.Ok
  ext : s.Ext b
  current : b.current = s.current
  ended : ∃ c, s.current = some c ∧ b.function = s.function.setEnding c t

theorem terminate_halted {b : Builder} (h : b.Live) {t : Terminator} (ht : t.Ok b.function)
    (hn : ∀ i ∈ t.successors, b.function.NoPhi i) :
    (terminate t).Sat b fun _ b' => Halted b b' t :=
  (terminate_ok h ht hn).imp fun _ _ hb => ⟨hb.1, hb.2.1, hb.2.2.1, hb.2.2.2⟩

theorem br_halted {b : Builder} (h : b.Live) {target : BlockId}
    (ht : target.index < b.function.blocks.size) (hn : b.function.NoPhi target) :
    (br target).Sat b fun _ b' => Halted b b' (.br target) :=
  terminate_halted h ht (by simpa [Terminator.successors] using hn)

theorem condBr_halted {b : Builder} (h : b.Live) {c : ValueId} {x y : BlockId}
    (hc : b.function.Has c .i1) (hx : x.index < b.function.blocks.size)
    (hy : y.index < b.function.blocks.size) (hnx : b.function.NoPhi x)
    (hny : b.function.NoPhi y) :
    (condBr c x y).Sat b fun _ b' => Halted b b' (.condBr c x y) := by
  refine demand_bind ?_ (terminate_halted h ⟨hc, hx, hy⟩ ?_)
  · simp [Builder.valueType, hc.valueType_eq]
  · intro i hi
    rcases (by simpa [Terminator.successors] using hi : i = x ∨ i = y) with rfl | rfl
    · exact hnx
    · exact hny

theorem ret_halted {b : Builder} (h : b.Live) {v : ValueId} (hv : b.function.Has v b.function.ret) :
    (ret v).Sat b fun _ b' => Halted b b' (.ret (some v)) :=
  terminate_halted h hv (by simp [Terminator.successors])

theorem retVoid_halted {b : Builder} (h : b.Live) (hr : b.function.ret = .void) :
    retVoid.Sat b fun _ b' => Halted b b' (.ret none) :=
  terminate_halted h hr (by simp [Terminator.successors])

theorem unreachable_halted {b : Builder} (h : b.Live) :
    unreachable.Sat b fun _ b' => Halted b b' .unreachable :=
  terminate_halted h trivial (by simp [Terminator.successors])

theorem condBr_fresh {b : Builder} (h : b.Live) {c : ValueId} {x y : BlockId}
    (hc : b.function.Has c .i1) (hx : Fresh b x) (hy : Fresh b y) :
    (condBr c x y).Sat b fun _ b' => Halted b b' (.condBr c x y) :=
  condBr_halted h hc hx.lt_size hy.lt_size hx.noPhi hy.noPhi

namespace Halted

variable {s b : Builder} {t : Terminator} (h : Halted s b t)

include h

theorem size : b.function.blocks.size = s.function.blocks.size := by
  obtain ⟨c, -, hf⟩ := h.ended
  simp [hf, Function.setEnding]

theorem body : b.function.body = s.function.body := by
  obtain ⟨c, -, hf⟩ := h.ended
  rw [hf, Function.body_setEnding]

theorem ending_of_ne {i : BlockId} (hi : s.current ≠ some i) :
    b.function.ending i = s.function.ending i := by
  obtain ⟨c, hc, hf⟩ := h.ended
  have hne : i ≠ c := fun he => hi (he ▸ hc)
  simp only [hf, Function.ending, Function.setEnding, Array.getElem?_modify,
    Function.index_ne hne, if_false]

omit h in
theorem within (h : Halted s b t) {r : Builder} (k : Within r s)
    (ht : ∀ i ∈ t.successors, r.function.blocks.size ≤ i.index) : Within r b where
  ext := k.ext.trans h.ext
  edges {i j} hi hj := by
    refine k.edges hi ?_
    by_cases hc : s.current = some j
    · obtain ⟨c, hc', hf⟩ := h.ended
      rw [hc] at hc'
      cases hc'
      have hlt : j.index < s.function.blocks.size := by
        obtain ⟨d, hd, hlt⟩ := h.ok.position
        rw [h.current, hc] at hd
        cases hd
        rw [← h.size]
        exact hlt
      rw [Function.succs, hf, Function.ending_setEnding hlt, if_pos rfl] at hj
      exact absurd hi (Nat.not_lt.2 (ht i hj))
    · rw [Function.succs, h.ending_of_ne hc] at hj
      exact hj

theorem preds {i : BlockId} {js : List BlockId} (hp : Preds s i js) {c : BlockId}
    (hc : s.current = some c) (ho : s.function.ending c = none) :
    Preds b i (if i ∈ t.successors then c :: js else js) := by
  intro j
  by_cases hj : j = c
  · subst hj
    have hn : j ∉ js := fun hm => by
      have := (hp j).2 hm
      simp [Function.succs, ho] at this
    obtain ⟨d, hd, hf⟩ := h.ended
    rw [hc] at hd
    cases hd
    have hlt : j.index < s.function.blocks.size := by
      obtain ⟨d, hd, hlt⟩ := h.ok.position
      rw [h.current, hc] at hd
      cases hd
      rw [← h.size]
      exact hlt
    simp only [Function.succs, hf, Function.ending_setEnding hlt]
    by_cases hi : i ∈ t.successors <;> simp [hi, hn]
  · have hne : s.current ≠ some j := fun he => hj (Option.some.inj (he.symm.trans hc))
    have he : j ∈ (if i ∈ t.successors then c :: js else js) ↔ j ∈ js := by
      split <;> simp [hj]
    rw [he, Function.succs, h.ending_of_ne hne]
    exact hp j

end Halted

/-- The position moves to an untouched block made since `s`, to which there is a way. -/
theorem positionAt_fresh {s b : Builder} (h : b.Ok) (hw : Within s b) {t : BlockId}
    (ht : Fresh b t) (hle : s.function.blocks.size ≤ t.index)
    (hp : ∀ {o}, s.current = some o → b.function.Path o t) :
    (positionAt t).Sat b fun _ b' => Onward s b' ∧ b' = { b with current := some t } := by
  refine (positionAt_live h ht.lt_size ht.isOpen).imp ?_
  rintro - b' ⟨hl, rfl⟩
  refine ⟨⟨⟨hw.ext.moveTo hle, hw.edges⟩, hl, ?_⟩, rfl⟩
  rintro c d hc hd
  cases hd
  exact hp hc

theorem positionAt_ext {s b : Builder} (h : b.Ok) (he : s.Ext b) {t : BlockId} (ht : Fresh b t)
    (hle : s.function.blocks.size ≤ t.index) :
    (positionAt t).Sat b fun _ b' => b'.Live ∧ s.Ext b' ∧ b' = { b with current := some t } := by
  refine (positionAt_live h ht.lt_size ht.isOpen).imp ?_
  rintro - b' ⟨hl, rfl⟩
  exact ⟨hl, he.moveTo hle, rfl⟩

/-- The current block ends in a branch to two new blocks. -/
structure Forked (s b : Builder) (t : Terminator) (x y : BlockId) : Prop where
  ok : b.Ok
  within : Within s b
  left : Fresh b x
  right : Fresh b y
  ne : x ≠ y
  leftNew : s.function.blocks.size ≤ x.index
  rightNew : s.function.blocks.size ≤ y.index
  ended : ∀ {o}, s.current = some o →
    b.function.ending o = some t ∧ b.function.body o = s.function.body o
  leftPreds : ∀ {o}, s.current = some o → Preds b x [o]
  rightPreds : ∀ {o}, s.current = some o → Preds b y [o]

theorem Preds.path {b : Builder} {i j : BlockId} (h : Preds b i [j]) : b.function.Path j i :=
  .single ((h j).2 (by simp))

theorem forked {s b₁ b₂ b₃ : Builder} {x y : BlockId} {c : ValueId} {t : Terminator}
    (h₁ : Appended s b₁ x) (h₂ : Appended b₁ b₂ y) (h₃ : Halted b₂ b₃ t)
    (ht : t = .condBr c x y ∨ t = .condBr c y x) : Forked s b₃ t x y := by
  have hsucc : ∀ i, i ∈ t.successors ↔ i = x ∨ i = y := by
    rcases ht with rfl | rfl <;> simp [Terminator.successors, or_comm]
  have hx : s.function.blocks.size ≤ x.index := by rw [h₁.isNext]
  have hxy : x.index < y.index := by
    rw [h₂.isNext]
    exact h₁.fresh.lt_size
  have hcur : b₂.current = s.current := h₂.current.trans h₁.current
  have hopen : ∀ {o}, s.current = some o → b₂.function.ending o = none := by
    intro o ho
    obtain ⟨d, hd, hn⟩ := h₂.live.isOpen
    rw [hcur, ho] at hd
    cases hd
    exact hn
  refine ⟨h₃.ok, ?_, (h₁.fresh.ext h₂.ext).ext h₃.ext, h₂.fresh.ext h₃.ext, ?_, hx, by omega,
    ?_, ?_, ?_⟩
  · refine h₃.within (h₁.toWithin.trans h₂.toWithin) fun i hi => ?_
    rcases (hsucc i).1 hi with rfl | rfl
    · exact hx
    · omega
  · rintro rfl
    exact Nat.lt_irrefl _ hxy
  · intro o ho
    obtain ⟨d, hd, hf⟩ := h₃.ended
    rw [hcur, ho] at hd
    cases hd
    have hlt := lt_size_of_ending h₂.live (hcur.trans ho)
    refine ⟨by rw [hf, Function.ending_setEnding hlt, if_pos rfl], ?_⟩
    rw [h₃.body, h₂.body, h₁.body]
  · intro o ho
    have := h₃.preds (h₁.preds.within h₂.toWithin h₁.fresh.lt_size) (hcur.trans ho) (hopen ho)
    rwa [if_pos ((hsucc x).2 (.inl rfl))] at this
  · intro o ho
    have := h₃.preds h₂.preds (hcur.trans ho) (hopen ho)
    rwa [if_pos ((hsucc y).2 (.inr rfl))] at this

namespace Forked

variable {s b : Builder} {t : Terminator} {x y : BlockId} (h : Forked s b t x y)

include h

/-- The position moves to the first of the new blocks. -/
theorem enterLeft : (positionAt x).Sat b fun _ b' => Onward s b' ∧ Fresh b' y ∧
    b' = { b with current := some x } := by
  refine (positionAt_fresh h.ok h.within h.left h.leftNew fun ho => (h.leftPreds ho).path).imp ?_
  rintro - b' ⟨ho, rfl⟩
  exact ⟨ho, h.right.moved h.ne, rfl⟩

theorem enterRight : (positionAt y).Sat b fun _ b' => Onward s b' ∧ Fresh b' x ∧
    b' = { b with current := some y } := by
  refine (positionAt_fresh h.ok h.within h.right h.rightNew fun ho => (h.rightPreds ho).path).imp ?_
  rintro - b' ⟨ho, rfl⟩
  exact ⟨ho, h.left.moved h.ne.symm, rfl⟩

/-- The way to one of the new blocks, once the position has moved to the other and gone on. -/
theorem pathLeft {b' : Builder} {z : BlockId} (he : ({ b with current := some z } : Builder).Ext b')
    {o : BlockId} (ho : s.current = some o) : b'.function.Path o x :=
  he.grows.path (h.leftPreds ho).path

theorem pathRight {b' : Builder} {z : BlockId} (he : ({ b with current := some z } : Builder).Ext b')
    {o : BlockId} (ho : s.current = some o) : b'.function.Path o y :=
  he.grows.path (h.rightPreds ho).path

end Forked

/-! ### Slots and merges -/

theorem entryAlloca_onward {b : Builder} (h : b.Live) {ty : Ty} (hs : ty.isScalar = true)
    (name : String) : (entryAlloca ty name).Sat b fun v b' => Onward b b' ∧ b'.function.Has v .ptr ∧
      b'.current = b.current ∧ v = ⟨b.function.values.size⟩ ∧
      b'.function = (b.function.addValue ⟨.ptr, .inst Id.entry, name⟩).addSlot
        ⟨some v, .alloca ty⟩ ∧
      ⟨some v, .alloca ty⟩ ∈ b'.function.slots Id.entry := by
  have hne : 0 < b.function.blocks.size := by
    obtain ⟨c, -, hlt⟩ := h.ok.position
    omega
  refine Sat.bind (pushValue_onward h (by trivial)) ?_
  rintro v b₁ ⟨hon, rfl, hfun, hcur⟩
  have hne₁ : 0 < b₁.function.blocks.size := by rw [hfun]; exact hne
  refine demand_bind ?_ (Sat.modify_bind (Sat.pure ?_))
  · rw [Bool.not_eq_true', Array.isEmpty_eq_false_iff, ← Array.size_pos_iff]
    exact hne₁
  have hval : b₁.function.value? ⟨b.function.values.size⟩ =
      some ⟨.ptr, .inst Id.entry, name⟩ := by
    simp [hfun, Function.value?, Function.addValue]
  let i : Inst := ⟨some ⟨b.function.values.size⟩, .alloca ty⟩
  have hi : i.Ok b₁.module b₁.function := by
    constructor
    · rintro r hr
      cases hr
      exact ⟨_, _, hval, rfl⟩
    · simp [i, InstKind.Typed, Function.valueType, hval, hs]
  have harr := hon.live.ok.function.arranged
  have hunused : b₁.function.Unused ⟨b.function.values.size⟩ := by
    rw [hfun]
    exact h.ok.function.unused (Nat.le_refl _)
  have hg : b₁.function.Grows (b₁.function.addSlot i) := Function.grows_addSlot harr hne₁ rfl
  have hfun₂ : (b₁.modifyFunction (·.addSlot i)).function = b₁.function.addSlot i :=
    function_modifyFunction hon.live.ok.valid _
  have hok : (b₁.modifyFunction (·.addSlot i)).Ok :=
    hon.live.ok.modifyFunction hg (hon.live.ok.function.addSlot hne₁ rfl hi rfl hunused)
  have hext : b₁.Ext (b₁.modifyFunction (·.addSlot i)) := by
    refine ext_modifyFunction hon.live.ok.valid 0 hg ?_ ?_ (fun _ => Function.ending_addSlot ..)
    · intro j _ _
      rw [Function.body_addSlot harr hne₁ rfl, Function.ending_addSlot]
      exact ⟨rfl, rfl⟩
    · intro j _ hn
      rw [Function.NoPhi, Function.body_addSlot harr hne₁ rfl]
      exact hn
  have hmem : i ∈ (b₁.function.addSlot i).code Id.entry := by
    rw [Function.code_addSlot harr hne₁]
    simp
  have hend : (b₁.modifyFunction (·.addSlot i)).function.ending = b₁.function.ending := by
    rw [hfun₂, Function.ending_addSlot]
  have hslot : i ∈ (b₁.modifyFunction (·.addSlot i)).function.slots Id.entry := by
    rw [hfun₂, Function.slots_addSlot harr hne₁ rfl]
    simp
  refine ⟨.stay (hon.toWithin.trans (within_of_ending hext hend)) ⟨hok, ?_⟩ hcur, ?_, hcur, rfl,
    by rw [← hfun]; exact hfun₂, hslot⟩
  · obtain ⟨c, hc, ho⟩ := hon.live.isOpen
    refine ⟨c, hc, ?_⟩
    show (b₁.modifyFunction (·.addSlot i)).function.ending c = none
    rw [hend]
    exact ho
  · show (b₁.modifyFunction (·.addSlot i)).function.Has ⟨b.function.values.size⟩ .ptr
    rw [hfun₂]
    exact ⟨⟨_, hg.value? hval, rfl, by simp, fun _ _ => ⟨Id.entry, i, hmem, rfl⟩⟩, rfl⟩

/-- A merge in an empty block whose predecessors are the given ones. It changes a block that merged
nothing, so it extends only states from before that block. -/
theorem phi_onward {b : Builder} (h : b.Live) {c : BlockId} (hc : b.current = some c)
    (hne : c ≠ Id.entry) (he : b.function.body c = []) {ty : Ty} (hs : ty.isScalar = true)
    {incoming : List (ValueId × BlockId)} {name : String}
    (hv : ∀ e ∈ incoming, b.function.Has e.1 ty) (hnd : (incoming.map (·.2)).Nodup)
    (hedges : ∀ j, j ∈ incoming.map (·.2) ↔ c ∈ b.function.succs j) :
    (phi ty incoming name).Sat b fun v b' => b'.Live ∧ b'.function.Has v ty ∧
      (∀ s : Builder, Within s b → s.function.blocks.size ≤ c.index → Within s b') ∧
      b.function.Grows b'.function ∧ b'.current = some c ∧ v = ⟨b.function.values.size⟩ ∧
      b'.function =
        (b.function.addValue ⟨ty, .inst c, name⟩).addPhi c ⟨some v, .phi ty incoming⟩ := by
  refine Sat.get_bind ?_
  simp only [hc]
  refine Sat.bind (pushValue_onward h (by trivial)) ?_
  rintro v b₁ ⟨hon, rfl, hfun, hcur⟩
  refine Sat.modify_bind (Sat.pure ?_)
  have hlt : c.index < b₁.function.blocks.size := lt_size_of_ending hon.live (hcur.trans hc)
  have ho : b₁.function.ending c = none := by
    obtain ⟨d, hd, ho⟩ := hon.live.isOpen
    rw [hcur, hc] at hd
    cases hd
    exact ho
  have he₁ : b₁.function.code c = [] := by
    rw [hon.live.ok.function.arranged.code_eq_body hne, hfun, Function.body_addValue, he]
  have hval : b₁.function.value? ⟨b.function.values.size⟩ = some ⟨ty, .inst c, name⟩ := by
    simp [hfun, Function.value?, Function.addValue]
  let i : Inst := ⟨some ⟨b.function.values.size⟩, .phi ty incoming⟩
  have hi : i.Ok b₁.module b₁.function := by
    constructor
    · rintro r hr
      cases hr
      exact ⟨_, _, hval, rfl⟩
    · exact ⟨fun e hm => hon.ext.has (hv e hm), by simp [i, Function.valueType, hval]⟩
  have hsuccs : b₁.function.succs = b.function.succs := by
    funext j
    simp [Function.succs, hfun]
  have hg : b₁.function.Grows (b₁.function.addPhi c i) := Function.grows_addPhi hlt he₁ ho rfl
  have hfun₂ : (b₁.modifyFunction (·.addPhi c i)).function = b₁.function.addPhi c i :=
    function_modifyFunction hon.live.ok.valid _
  have hunused : b₁.function.Unused ⟨b.function.values.size⟩ := by
    rw [hfun]
    exact h.ok.function.unused (Nat.le_refl _)
  have hok : (b₁.modifyFunction (·.addPhi c i)).Ok :=
    hon.live.ok.modifyFunction hg (hon.live.ok.function.addPhi hlt he₁ ho hne rfl hi
      (by rintro r hr; cases hr; exact hunused) hnd (by rw [hsuccs]; exact hedges))
  have hmem : i ∈ (b₁.function.addPhi c i).code c := by
    rw [Function.code_addPhi hlt he₁]
    simp
  refine ⟨⟨hok, c, hcur.trans hc, ?_⟩, ?_, ?_, ?_, hcur.trans hc, rfl,
    by rw [← hfun]; exact hfun₂⟩
  · show (b₁.modifyFunction (·.addPhi c i)).function.ending c = none
    rw [hfun₂, Function.ending_addPhi]
    exact ho
  · show (b₁.modifyFunction (·.addPhi c i)).function.Has ⟨b.function.values.size⟩ ty
    rw [hfun₂]
    exact ⟨⟨_, hg.value? hval, rfl, by simp, fun _ _ => ⟨c, i, hmem, rfl⟩⟩, hs⟩
  · intro s hs hle
    have hs₁ := hs.ext.trans hon.ext
    have hend : (b₁.modifyFunction (·.addPhi c i)).function.ending = b₁.function.ending := by
      rw [hfun₂, Function.ending_addPhi]
    refine ⟨?_, fun hi hj => hs.edges hi ?_⟩
    rotate_left
    · rw [← hsuccs, Function.succs, ← hend]
      exact hj
    have hbody : ∀ j : BlockId, j.index < s.function.blocks.size →
        (b₁.function.addPhi c i).body j = b₁.function.body j := by
      intro j hj
      rw [Function.body_addPhi hlt he₁ rfl, if_neg]
      rintro rfl
      omega
    exact {
      func := hs₁.func
      module := hs₁.module.trans (module_grows_modifyFunction b₁ hon.live.ok.valid hg)
      others := fun j hj =>
        (function?_modifyFunction_ne b₁ _ (by rw [hs₁.func]; exact hj)).trans (hs₁.others j hj)
      functions := by
        rw [← hs₁.functions]
        simp [Builder.modifyBlock, Builder.modifyFunction, Module.modifyFunction]
      grows := by
        show s.function.Grows (b₁.modifyFunction (·.addPhi c i)).function
        rw [hfun₂]
        exact hs₁.grows.trans hg
      keep := fun j hj hne => by
        show (b₁.modifyFunction (·.addPhi c i)).function.body j = _ ∧
          (b₁.modifyFunction (·.addPhi c i)).function.ending j = _
        rw [hfun₂, hbody j hj, Function.ending_addPhi]
        exact hs₁.keep j hj hne
      noPhi := fun j hj hn => by
        show ∀ x ∈ (b₁.modifyFunction (·.addPhi c i)).function.body j, x.kind.isPhi = false
        rw [hfun₂, hbody j hj]
        exact hs₁.noPhi j hj hn
      current := hs₁.current
      terminators := hs₁.terminators
      steady := fun he => hend.trans (hs₁.steady he) }
  · show b.function.Grows (b₁.modifyFunction (·.addPhi c i)).function
    rw [hfun₂]
    exact hon.ext.grows.trans hg

end Emit

end BlockForge.Ir
