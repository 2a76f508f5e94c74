import BlockForge.Proofs.Ir.Shape

/-!
# How the block graph spreads

Statements make blocks, end them and leave the position where the next statement goes on. They end no
block but the current one and those they make, and the only blocks that were there before and get new
ways in are those that loops and branches lead back to. So control gets to a block that was there before
exactly if it got there then, and a block that is left open stays out of reach.
-/

namespace BlockForge.Ir

namespace Builder

/-- A builder at some block of a function. -/
structure Placed (b : Builder) : Prop where
  valid : b.func.index < b.module.functions.size
  entry : 0 < b.function.blocks.size
  position : ∃ c, b.current = some c ∧ c.index < b.function.blocks.size
  bounded : b.function.Bounded

/-- The position is in an open block that control can get to. -/
structure Reached (b : Builder) : Prop where
  position : ∃ c, b.current = some c ∧ b.function.ending c = none ∧ b.function.Path Id.entry c

theorem Placed.opened {b : Builder} (h : b.Placed) (hr : b.Reached) : b.Opened := by
  obtain ⟨c, hc, hlt⟩ := h.position
  obtain ⟨d, hd, ho, -⟩ := hr.position
  obtain rfl : c = d := Option.some.inj (hc.symm.trans hd)
  exact ⟨h.valid, c, hc, hlt, ho⟩

theorem not_reached_of_ended {b : Builder} {c : BlockId} {t : Terminator} (hc : b.current = some c)
    (ht : b.function.ending c = some t) : ¬b.Reached := by
  rintro ⟨d, hd, ho, -⟩
  obtain rfl : c = d := Option.some.inj (hc.symm.trans hd)
  rw [ht] at ho
  cases ho

end Builder

namespace Emit

open Builder StateM

theorem positionAt_eq {b : Builder} {y : BlockId} (hy : y.index < b.function.blocks.size) :
    positionAt y b = ((), { b with current := some y }) := by
  simp [positionAt, Emit.demand, Builder.demand, hy, modify, modifyGet, MonadStateOf.modifyGet,
    StateT.modifyGet, bind, StateT.bind, pure]

/-! ### Growth of the graph -/

/-- Ends only the current block and new ones, moves only to new ones, and adds ways only into new blocks
and into those of `J`. -/
structure Spreads (J : BlockId → Prop) (s b : Builder) : Prop extends Inside s b where
  size : s.function.blocks.size ≤ b.function.blocks.size
  current : b.current = s.current ∨ ∃ c, b.current = some c ∧ s.function.blocks.size ≤ c.index ∧
    c.index < b.function.blocks.size
  keep : ∀ {i : BlockId}, i.index < s.function.blocks.size → s.current ≠ some i →
    b.function.ending i = s.function.ending i
  ended : ∀ {i t}, s.function.ending i = some t → b.function.ending i = some t
  edges : ∀ {i j : BlockId}, i.index < s.function.blocks.size → i ∈ b.function.succs j →
    i ∈ s.function.succs j ∨ J i
  bounded : s.function.Bounded → b.function.Bounded
  terminators : s.terminators ≤ b.terminators
  steady : b.terminators = s.terminators → b.function.ending = s.function.ending

namespace Spreads

variable {J K : BlockId → Prop} {s b d : Builder}

theorem refl (s : Builder) : Spreads J s s :=
  ⟨.refl s, Nat.le_refl _, .inl rfl, fun _ _ => rfl, id, fun _ => .inl, id, Nat.le_refl _,
    fun _ => rfl⟩

theorem mono (h : Spreads J s b) (hJ : ∀ i, i.index < s.function.blocks.size → J i → K i) :
    Spreads K s b :=
  { h with edges := fun hi hj => (h.edges hi hj).imp id (hJ _ hi) }

theorem away (h : Spreads J s b) {i : BlockId} (hi : i.index < s.function.blocks.size)
    (hne : s.current ≠ some i) : b.current ≠ some i := by
  rcases h.current with hc | ⟨c, hc, hle, -⟩
  · rw [hc]
    exact hne
  · rw [hc]
    rintro he
    cases he
    omega

theorem trans (h : Spreads J s b) (k : Spreads K b d)
    (hK : ∀ i, i.index < s.function.blocks.size → K i → J i) : Spreads J s d where
  toInside := h.toInside.trans k.toInside
  size := Nat.le_trans h.size k.size
  current := by
    rcases k.current with hc | ⟨c, hc, hle, hlt⟩
    · rw [hc]
      rcases h.current with hc | ⟨c, hc, hle, hlt⟩
      · exact .inl hc
      · exact .inr ⟨c, hc, hle, Nat.lt_of_lt_of_le hlt k.size⟩
    · exact .inr ⟨c, hc, Nat.le_trans h.size hle, hlt⟩
  keep hi hne := by
    rw [k.keep (Nat.lt_of_lt_of_le hi h.size) (h.away hi hne), h.keep hi hne]
  ended ht := k.ended (h.ended ht)
  edges hi hj := by
    rcases k.edges (Nat.lt_of_lt_of_le hi h.size) hj with hj | hj
    · exact h.edges hi hj
    · exact .inr (hK _ hi hj)
  bounded hb := k.bounded (h.bounded hb)
  terminators := Nat.le_trans h.terminators k.terminators
  steady he := by
    have h₁ := h.terminators
    have h₂ := k.terminators
    rw [k.steady (by omega), h.steady (by omega)]

theorem placed (h : Spreads J s b) (hs : s.Placed) : b.Placed := by
  refine ⟨h.valid hs.valid, Nat.lt_of_lt_of_le hs.entry h.size, ?_, h.bounded hs.bounded⟩
  obtain ⟨c, hc, hlt⟩ := hs.position
  rcases h.current with hc' | ⟨d, hd, -, hlt'⟩
  · exact ⟨c, hc'.trans hc, Nat.lt_of_lt_of_le hlt h.size⟩
  · exact ⟨d, hd, hlt'⟩

theorem path (h : Spreads J s b) {i j : BlockId} (hp : s.function.Path i j) : b.function.Path i j :=
  path_of_ended h.ended hp

/-- The position moves to a block that is new since the start. -/
theorem moved (h : Spreads J s b) {y : BlockId} (hy : s.function.blocks.size ≤ y.index)
    (hlt : y.index < b.function.blocks.size) : Spreads J s { b with current := some y } :=
  ⟨⟨h.func, h.pointerBits, h.head, h.functions, h.others, h.code, h.hosts⟩, h.size, .inr ⟨y, rfl, hy, hlt⟩, h.keep, h.ended,
    h.edges, h.bounded, h.terminators, h.steady⟩

/-- Control gets to a block that was there only if it got there before, except for open blocks that were
waiting for it. -/
theorem path_old (h : Spreads J s b) {X : BlockId → Prop}
    (hJ : ∀ i, i.index < s.function.blocks.size → J i → X i ∨ s.function.Path Id.entry i)
    (hX : ∀ i, X i → b.function.ending i = none) {i : BlockId}
    (hi : i.index < s.function.blocks.size) (hx : ¬X i) (hp : b.function.Path Id.entry i) :
    s.function.Path Id.entry i := by
  induction hp with
  | refl => exact .refl
  | @tail k i hk hki ih =>
    rcases h.edges hi hki with hki' | hj
    · refine (ih ?_ fun hxk => ?_).tail hki'
      · by_contra hle
        rw [Function.succs, Function.ending_eq_none (Nat.not_lt.1 hle)] at hki'
        cases hki'
      · rw [Function.succs, hX k hxk] at hki
        cases hki
    · exact (hJ i hi hj).resolve_left hx

end Spreads

theorem Advances.spreads {s b : Builder} (h : Advances s b) : Spreads (fun _ => False) s b where
  toInside := h.toInside
  size := h.size
  current := by
    rcases h.current with hc | ⟨c, hc, hle⟩
    · exact .inl hc
    · obtain ⟨d, hd, hlt, -⟩ := h.opened.position
      obtain rfl : c = d := Option.some.inj (hc.symm.trans hd)
      exact .inr ⟨c, hc, hle, hlt⟩
  keep := h.keep
  ended := h.ended
  edges hi hj := .inl (h.edges hi hj)
  bounded := h.bounded
  terminators := h.terminators
  steady := h.steady

theorem Makes.spreads {n : Nat} {s b : Builder} (h : Makes n s b) : Spreads (fun _ => False) s b where
  toInside := h.toInside
  size := by rw [h.size]; omega
  current := .inl h.current
  keep _ _ := by rw [h.ending]
  ended ht := by rw [h.ending]; exact ht
  edges _ hj := by
    rw [Function.succs, h.ending] at hj
    exact .inl hj
  bounded hb i j hj := by
    rw [Function.succs, h.ending] at hj
    rw [h.size]
    exact Nat.lt_of_lt_of_le (hb hj) (Nat.le_add_right ..)
  terminators := by rw [h.terminators]
  steady _ := h.ending

/-- Ending the current block adds ways into the blocks that it leads to. -/
theorem Turns.spreads {s b : Builder} {t : Terminator} {c : BlockId} (h : Turns s b t c)
    (ho : s.Opened) (hc : s.current = some c)
    (ht : ∀ i ∈ t.successors, i.index < s.function.blocks.size) :
    Spreads (· ∈ t.successors) s b where
  toInside := h.toInside
  size := by rw [h.size]
  current := .inl (h.current.trans hc.symm)
  keep _ hne := by
    rw [h.ending hc, if_neg]
    rintro rfl
    exact hne hc
  ended {i v} hv := by
    rw [h.ending hc, if_neg, hv]
    rintro rfl
    obtain ⟨d, hd, -, hopen⟩ := ho.position
    obtain rfl : i = d := Option.some.inj (hc.symm.trans hd)
    rw [hopen] at hv
    cases hv
  edges {i j} _ hj := by
    rw [succs_turns h hc] at hj
    split at hj
    · exact .inr hj
    · exact .inl hj
  bounded hb i j hj := by
    rw [succs_turns h hc] at hj
    rw [h.size]
    split at hj
    · exact ht i hj
    · exact hb hj
  terminators := by rw [h.terminators]; omega
  steady he := by
    rw [h.terminators] at he
    omega

/-! ### Open blocks and dead ends -/

/-- The blocks that are left open in reach are in `P`, or were open before the work and not at its
position. -/
def Pending (P : BlockId → Prop) (s b : Builder) : Prop := ∀ ⦃i : BlockId⦄,
  i.index < b.function.blocks.size → b.function.ending i = none → b.function.Path Id.entry i →
    P i ∨ i.index < s.function.blocks.size ∧ s.current ≠ some i

/-- A dead end is one from before, cannot be got to the end of, or has the excuse `E`. -/
def DeadEnds (E : Prop) (s b : Builder) : Prop := ∀ ⦃i : BlockId⦄,
  b.function.ending i = some .unreachable →
    s.function.ending i = some .unreachable ∨ b.function.Halts b.module i ∨ E

/-- What statements do to the graph: new ways lead into blocks of `J`, and if `C` holds only blocks of `P`
are left open in reach. -/
structure Builds (J P : BlockId → Prop) (C E : Prop) (s b : Builder) : Prop extends
    Spreads J s b where
  pending : C → Pending P s b
  deadEnds : DeadEnds E s b

section

variable {J K P Q R X : BlockId → Prop} {C E F G : Prop} {s b d : Builder}

theorem DeadEnds.trans (h : DeadEnds E s b) (k : DeadEnds F b d) (hin : Inside b d) (hE : E → G)
    (hF : F → G) : DeadEnds G s d := by
  intro i hi
  rcases k hi with hi | hi | hi
  · rcases h hi with hi | hi | hi
    · exact .inl hi
    · exact .inr (.inl (halts_mono hi hin.code hin.hosts))
    · exact .inr (.inr (hE hi))
  · exact .inr (.inl hi)
  · exact .inr (.inr (hF hi))

/-- A block that is open later was open before. -/
theorem Spreads.ending_none (h : Spreads J s b) {i : BlockId} (hn : b.function.ending i = none) :
    s.function.ending i = none := by
  cases ht : s.function.ending i with
  | none => rfl
  | some t =>
    rw [h.ended ht] at hn
    cases hn

/-- The block at the position in between is taken care of by what follows; a block that waits for a branch
to it may come into reach. -/
theorem Pending.trans (h : Pending P s b) (k : Pending Q b d) (hk : Spreads K b d)
    (hK : ∀ i, i.index < b.function.blocks.size → K i → X i ∨ b.function.Path Id.entry i)
    (hX : ∀ i, X i → d.function.ending i = none ∧
      (R i ∨ i.index < s.function.blocks.size ∧ s.current ≠ some i))
    (hP : ∀ i, P i → b.current ≠ some i → R i) (hQ : ∀ i, Q i → R i) : Pending R s d := by
  intro i hi hn hp
  rcases k hi hn hp with hq | ⟨hlt, hne⟩
  · exact .inl (hQ i hq)
  · by_cases hx : X i
    · exact (hX i hx).2
    · have hp' := hk.path_old hK (fun i hi => (hX i hi).1) hlt hx hp
      exact (h hlt (hk.ending_none hn) hp').imp (fun hpi => hP i hpi hne) id

theorem Builds.trans (h : Builds J P C E s b) (k : Builds K Q C F b d)
    (hKJ : ∀ i, i.index < s.function.blocks.size → K i → J i)
    (hK : ∀ i, i.index < b.function.blocks.size → K i → X i ∨ b.function.Path Id.entry i)
    (hX : ∀ i, X i → d.function.ending i = none ∧
      (R i ∨ i.index < s.function.blocks.size ∧ s.current ≠ some i))
    (hP : ∀ i, P i → b.current ≠ some i → R i) (hQ : ∀ i, Q i → R i) (hE : E → G) (hF : F → G) :
    Builds J R C G s d where
  toSpreads := h.toSpreads.trans k.toSpreads hKJ
  pending hc := (h.pending hc).trans (k.pending hc) k.toSpreads hK hX hP hQ
  deadEnds := h.deadEnds.trans k.deadEnds k.toInside hE hF

/-- What follows leads back to blocks in reach only. -/
theorem Builds.andThen (h : Builds J P C E s b) (k : Builds K Q C F b d)
    (hKJ : ∀ i, i.index < s.function.blocks.size → K i → J i)
    (hK : ∀ i, i.index < b.function.blocks.size → K i → b.function.Path Id.entry i)
    (hP : ∀ i, P i → b.current ≠ some i → R i) (hQ : ∀ i, Q i → R i) (hE : E → G) (hF : F → G) :
    Builds J R C G s d :=
  h.trans k (X := fun _ => False) hKJ (fun i hi hj => .inr (hK i hi hj)) (by simp) hP hQ hE hF

theorem Builds.imp (h : Builds J P C E s b)
    (hJ : ∀ i, i.index < s.function.blocks.size → J i → K i) (hP : ∀ i, P i → Q i) (hE : E → F) :
    Builds K Q C F s b where
  toSpreads := h.toSpreads.mono hJ
  pending hc i hi hn hp := (h.pending hc hi hn hp).imp (hP i) id
  deadEnds _ hi := (h.deadEnds hi).imp id (Or.imp id hE)

theorem Builds.under {D : Prop} (h : Builds J P C E s b) (hc : D → C) : Builds J P D E s b :=
  { h with pending := fun hd => h.pending (hc hd) }

theorem Builds.refl (s : Builder) : Builds J (fun i => s.current = some i) C E s s where
  toSpreads := .refl s
  pending _ i hi _ _ := by
    by_cases hc : s.current = some i
    · exact .inl hc
    · exact .inr ⟨hi, hc⟩
  deadEnds _ := .inl

theorem Builds.moved (h : Builds J P C E s b) {y : BlockId} (hy : s.function.blocks.size ≤ y.index)
    (hlt : y.index < b.function.blocks.size) : Builds J P C E s { b with current := some y } where
  toSpreads := h.toSpreads.moved hy hlt
  pending := h.pending
  deadEnds := h.deadEnds

theorem Advances.builds (h : Advances s b) :
    Builds (fun _ => False) (fun i => b.current = some i) C E s b where
  toSpreads := h.spreads
  pending _ _ hi hn _ := h.opens hi hn
  deadEnds _ hi := (h.deadEnds hi).imp id .inl

theorem Makes.builds {n : Nat} (h : Makes n s b) : Builds (fun _ => False)
    (fun i => s.current = some i ∨ s.function.blocks.size ≤ i.index ∧ i.index < b.function.blocks.size)
    C E s b where
  toSpreads := h.spreads
  pending _ i hi _ _ := by
    by_cases hc : s.current = some i
    · exact .inl (.inl hc)
    · by_cases hlt : i.index < s.function.blocks.size
      · exact .inr ⟨hlt, hc⟩
      · exact .inl (.inr ⟨Nat.not_lt.1 hlt, hi⟩)
  deadEnds i hi := by
    rw [h.ending] at hi
    exact .inl hi

theorem Turns.builds {t : Terminator} {c : BlockId} (h : Turns s b t c) (ho : s.Opened)
    (hc : s.current = some c) (ht : ∀ i ∈ t.successors, i.index < s.function.blocks.size)
    (hd : t = .unreachable → E) : Builds (· ∈ t.successors) (fun _ => False) C E s b where
  toSpreads := h.spreads ho hc ht
  pending _ i hi hn _ := by
    rw [h.size] at hi
    refine .inr ⟨hi, fun hci => ?_⟩
    obtain rfl : c = i := Option.some.inj (hc.symm.trans hci)
    rw [h.ending hc, if_pos rfl] at hn
    cases hn
  deadEnds i hi := by
    rw [h.ending hc] at hi
    split at hi
    · exact .inr (.inr (hd (Option.some.inj hi)))
    · exact .inl hi

/-- Where the position is out of reach, no block is pending there. -/
theorem Builds.settled (h : Builds J P C E s b) (hr : ¬b.Reached)
    (hP : ∀ i, P i → b.current ≠ some i → Q i) : Builds J Q C E s b where
  toSpreads := h.toSpreads
  pending hc i hi hn hp := by
    refine (h.pending hc hi hn hp).imp (fun hpi => hP i hpi fun hcur => ?_) id
    exact hr ⟨i, hcur, hn, hp⟩
  deadEnds := h.deadEnds

/-- Control gets to the blocks that a block in reach leads to. -/
theorem Turns.path {t : Terminator} {y c : BlockId} (h : Turns s b t y) (ho : s.Opened)
    (hc : s.current = some c) (hp : s.function.Path Id.entry c) {x : BlockId} (hx : x ∈ t.successors) :
    b.function.Path Id.entry x := by
  have hended : ∀ {i v}, s.function.ending i = some v → b.function.ending i = some v := by
    intro i v hi
    rw [h.ending hc, if_neg, hi]
    rintro rfl
    obtain ⟨d, hd, -, hopen⟩ := ho.position
    obtain rfl : i = d := Option.some.inj (hc.symm.trans hd)
    rw [hopen] at hi
    cases hi
  refine (path_of_ended hended hp).tail ?_
  show x ∈ b.function.succs c
  rw [succs_turns h hc, if_pos rfl]
  exact hx

theorem Makes.reached {n : Nat} (h : Makes n s b) (hr : s.Reached) : b.Reached := by
  obtain ⟨c, hc, ho, hp⟩ := hr.position
  refine ⟨c, h.current.trans hc, by rw [h.ending, ho], ?_⟩
  simp only [Function.Path, Function.succs, h.ending]
  exact hp

/-- A branch to where control joins, if control gets to it. -/
theorem branch_builds (hb : b.Placed) {live : Bool} (hl : b.Reached ↔ live = true) {target : BlockId}
    (hlt : target.index < b.function.blocks.size) :
    ∃ d, (if live then br target else pure ()) b = ((), d) ∧
      Builds (fun i => i = target ∧ live = true) (fun _ => False) C E b d ∧ ¬d.Reached ∧
      (live = true → d.function.Path Id.entry target) := by
  cases live with
  | false =>
    have hdead : ¬b.Reached := by simp [hl]
    exact ⟨b, rfl, (Builds.refl b).settled hdead fun i hi hne => absurd hi hne, hdead, by simp⟩
  | true =>
    have hr := hl.2 rfl
    have ho := hb.opened hr
    obtain ⟨c, hc, -, hp⟩ := hr.position
    have ht : Turns b (br target b).2 (.br target) c := terminate_turns ho hc (.br target)
    have hend : (br target b).2.function.ending c = some (.br target) := by
      rw [ht.ending hc, if_pos rfl]
    refine ⟨_, rfl, ?_, not_reached_of_ended ht.current hend,
      fun _ => ht.path ho hc hp (by simp [Terminator.successors])⟩
    have hsucc : ∀ i ∈ (Terminator.br target).successors, i = target := by
      simp [Terminator.successors]
    exact (ht.builds ho hc (fun i hi => by rw [hsucc i hi]; exact hlt) (by simp)).imp
      (fun i _ hi => ⟨hsucc i hi, rfl⟩) (by simp) id

end

end Emit

end BlockForge.Ir
