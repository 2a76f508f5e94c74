import BlockForge.Proofs.Machine.Ledger

/-!
# Calls clean up

Whether a call returns or fails, at whatever depth, its stack slots are released, nothing that was there
before is, and what stays is what the host was asked for and the constant texts used for the first time.
An `Account` holds this of a store while the call runs; each step of the machine keeps it.
-/

namespace BlockForge.Machine

open Ir (Function Module)

/-! ### What a call leaves behind -/

/-- How many constant texts were put into memory between two stores. -/
def Store.placed (st st' : Store) : Nat :=
  (st.globals.toList.zip st'.globals.toList).countP fun p => p.1.isNone && p.2.isSome

/-- From one store to another, by way of steps from the given states: no allocation is released that was there
before, every stack slot is, and what is left are constant texts and what the host was asked for. -/
structure CleansUp (m : Module) (states : List State) (st st' : Store) : Prop where
  kept : ∀ i, st.memory.isLive i = true → st'.memory.isLive i = true
  slots : ∀ M ∈ states, M.makesSlot = true → st'.memory.isLive M.store.memory.blocks.size = false
  live : st'.memory.liveAllocations =
    st.memory.liveAllocations + states.countP (·.asksHeap m) + st.placed st'

/-! ### Accounts -/

theorem Memory.lt_of_isLive {mem : Memory} {i : Nat} (h : mem.isLive i = true) : i < mem.blocks.size := by
  by_contra hn
  rw [Memory.isLive, Array.getElem?_eq_none (Nat.le_of_not_lt hn)] at h
  cases h

/-- What has happened to the allocations since a store, by way of steps from the given states, while `slots`
are in use. -/
structure Account (m : Module) (st₀ : Store) (states : List State) (slots : List UInt64) (st : Store) :
    Prop where
  fits : st.Fits m
  globals : st.globals.size = st₀.globals.size
  texts : ∀ {k : Nat} {addr : UInt64}, st₀.globals[k]? = some (some addr) →
    st.globals[k]? = some (some addr)
  size : st₀.memory.blocks.size ≤ st.memory.blocks.size
  old : ∀ {i}, i < st₀.memory.blocks.size → st.memory.isLive i = st₀.memory.isLive i
  live : st.memory.liveAllocations + st₀.texts =
    st₀.memory.liveAllocations + st.texts + states.countP (·.asksHeap m) + slots.length
  distinct : (slots.map blockIndex).Nodup
  inUse : ∀ a ∈ slots, st₀.memory.blocks.size ≤ blockIndex a ∧ st.memory.isLive (blockIndex a) = true
  made : ∀ M ∈ states, M.makesSlot = true → M.store.memory.blocks.size < st.memory.blocks.size ∧
    (st.memory.isLive M.store.memory.blocks.size = true → M.store.memory.blocks.size ∈ slots.map blockIndex)

namespace Account

variable {m : Module} {st₀ st st' : Store} {states : List State} {slots : List UInt64} {n : Nat}

theorem start (h : st₀.Fits m) : Account m st₀ [] [] st₀ where
  fits := h
  globals := rfl
  texts ha := ha
  size := Nat.le_refl _
  old _ := rfl
  live := by simp
  distinct := List.nodup_nil
  inUse _ ha := absurd ha List.not_mem_nil
  made _ hM := absurd hM List.not_mem_nil

/-- The gain of a step adds to the account. -/
theorem gain (h : Account m st₀ states slots st) {C : Prop} (hg : Gains m C n st st') (hC : C)
    (hsmall : st'.memory.blocks.size ≤ maxBlocks) {new : List State}
    (hnew : ∀ M ∈ new, M.makesSlot = false) (hn : n = new.countP (·.asksHeap m)) :
    Account m st₀ (states ++ new) slots st' := by
  have gain := hg.gain hC h.fits hsmall
  obtain ⟨j, hj, hl⟩ := gain.lives
  have hold : ∀ {i}, i < st.memory.blocks.size → st'.memory.isLive i = st.memory.isLive i := fun hi =>
    Memory.isLive_of_lt hl hi
  refine
    { fits := h.fits.of_gains hg
      globals := hg.globals.trans h.globals
      texts := fun ha => gain.texts (h.texts ha)
      size := Nat.le_trans h.size hg.size
      old := fun hi => (hold (Nat.lt_of_lt_of_le hi h.size)).trans (h.old hi)
      live := ?_
      distinct := h.distinct
      inUse := fun a ha => ⟨(h.inUse a ha).1, ?_⟩
      made := fun M hM hs => ?_ }
  · have := h.live
    have hcount : st'.memory.liveAllocations = st.memory.liveAllocations + (j + n) := by
      rw [Memory.liveAllocations_eq, hl, List.count_append, ← Memory.liveAllocations_eq]
      simp
    rw [List.countP_append]
    omega
  · rw [hold (Memory.lt_of_isLive (h.inUse a ha).2)]
    exact (h.inUse a ha).2
  · rcases List.mem_append.1 hM with hM | hM
    · obtain ⟨hlt, hlive⟩ := h.made M hM hs
      exact ⟨Nat.lt_of_lt_of_le hlt hg.size, fun ha => hlive ((hold hlt) ▸ ha)⟩
    · rw [hnew M hM] at hs
      cases hs

/-- A step that makes a slot adds it to those in use. -/
theorem slot {M : State} (h : Account m st₀ states slots M.store) {C : Prop} (hg : Gains m C 1 M.store st') (hC : C)
    (hsmall : st'.memory.blocks.size ≤ maxBlocks) (hheap : M.asksHeap m = false)
    (hsize : st'.memory.blocks.size = M.store.memory.blocks.size + 1) :
    Account m st₀ (states ++ [M]) (blockAddress M.store.memory.blocks.size :: slots) st' := by
  have gain := hg.gain hC h.fits hsmall
  obtain ⟨j, hj, hl⟩ := gain.lives
  have hold : ∀ {i}, i < M.store.memory.blocks.size → st'.memory.isLive i = M.store.memory.isLive i := fun hi =>
    Memory.isLive_of_lt hl hi
  have hindex : blockIndex (blockAddress M.store.memory.blocks.size) = M.store.memory.blocks.size :=
    blockIndex_blockAddress (by omega)
  have hnew : st'.memory.isLive M.store.memory.blocks.size = true := by
    rw [← Memory.getElem?_lives, hl, List.getElem?_append_right (by simp), Memory.length_lives, Nat.sub_self,
      List.getElem?_replicate, if_pos (by omega)]
    rfl
  refine
    { fits := h.fits.of_gains hg
      globals := hg.globals.trans h.globals
      texts := fun ha => gain.texts (h.texts ha)
      size := Nat.le_trans h.size hg.size
      old := fun hi => (hold (Nat.lt_of_lt_of_le hi h.size)).trans (h.old hi)
      live := ?_
      distinct := ?_
      inUse := fun a ha => ?_
      made := fun N hN hs => ?_ }
  · have := h.live
    have hcount : st'.memory.liveAllocations = M.store.memory.liveAllocations + (j + 1) := by
      rw [Memory.liveAllocations_eq, hl, List.count_append, ← Memory.liveAllocations_eq]
      simp
    have hone : [M].countP (·.asksHeap m) = 0 := by simp [hheap]
    rw [List.countP_append, hone, List.length_cons]
    omega
  · rw [List.map_cons, List.nodup_cons, hindex]
    refine ⟨fun hmem => ?_, h.distinct⟩
    obtain ⟨a, ha, he⟩ := List.mem_map.1 hmem
    have := Memory.lt_of_isLive (h.inUse a ha).2
    omega
  · rcases List.mem_cons.1 ha with rfl | ha
    · rw [hindex]
      exact ⟨h.size, hnew⟩
    · obtain ⟨hle, hlive⟩ := h.inUse a ha
      exact ⟨hle, (hold (Memory.lt_of_isLive hlive)).trans hlive⟩
  · rcases List.mem_append.1 hN with hN | hN
    · obtain ⟨hlt, hlive⟩ := h.made N hN hs
      refine ⟨by omega, fun ha => ?_⟩
      exact List.mem_cons_of_mem _ (hlive ((hold hlt) ▸ ha))
    · obtain rfl := List.mem_singleton.1 hN
      exact ⟨by omega, fun _ => by simp [hindex]⟩

/-- Releasing a slot takes it out of use. -/
theorem release {a : UInt64} (h : Account m st₀ states (a :: slots) st) :
    Account m st₀ states slots { st with memory := st.memory.release a } := by
  obtain ⟨hle, hlive⟩ := h.inUse a (by simp)
  have hlt := Memory.lt_of_isLive hlive
  have hl : (st.memory.release a).lives = st.memory.lives.set (blockIndex a) false := st.memory.lives_release a
  have hsize : (st.memory.release a).blocks.size = st.memory.blocks.size := by simp [Memory.release]
  have hne : ∀ {i}, i ≠ blockIndex a → (st.memory.release a).isLive i = st.memory.isLive i := by
    intro i hi
    rw [← Memory.getElem?_lives, ← Memory.getElem?_lives, hl, List.getElem?_set_ne hi.symm]
  have hself : (st.memory.release a).isLive (blockIndex a) = false := by
    rw [← Memory.getElem?_lives, hl, List.getElem?_set_self (by simpa using hlt)]
    rfl
  have hdistinct := h.distinct
  rw [List.map_cons, List.nodup_cons] at hdistinct
  refine
    { fits := ⟨h.fits.globals, by rw [hsize]; exact h.fits.pos⟩
      globals := h.globals
      texts := h.texts
      size := by rw [hsize]; exact h.size
      old := fun hi => (hne (by omega)).trans (h.old hi)
      live := ?_
      distinct := hdistinct.2
      inUse := fun b hb => ?_
      made := fun M hM hs => ?_ }
  · have := h.live
    have hget : st.memory.lives[blockIndex a]? = some true := by
      have := Memory.getElem?_lives st.memory (blockIndex a)
      rw [hlive, List.getElem?_eq_getElem (by simpa using hlt)] at this
      rw [List.getElem?_eq_getElem (by simpa using hlt)]
      exact congrArg some this
    have hcount : (st.memory.release a).liveAllocations + 1 = st.memory.liveAllocations := by
      obtain ⟨hi, hv⟩ := List.getElem?_eq_some_iff.1 hget
      rw [Memory.liveAllocations_eq, Memory.liveAllocations_eq, hl, List.count_set hi]
      have hpos : 0 < st.memory.lives.count true := List.count_pos_iff.2 (hv ▸ List.getElem_mem hi)
      simp only [hv, beq_self_eq_true, if_true, Bool.false_eq_true, beq_iff_eq, if_false]
      omega
    show (st.memory.release a).liveAllocations + st₀.texts = _ + st.texts + _ + _
    rw [List.length_cons] at this
    omega
  · obtain ⟨hb', hlive'⟩ := h.inUse b (by simp [hb])
    refine ⟨hb', (hne fun he => hdistinct.1 ?_).trans hlive'⟩
    exact he ▸ List.mem_map_of_mem hb
  · obtain ⟨hM', hin⟩ := h.made M hM hs
    refine ⟨by rw [hsize]; exact hM', fun ha => ?_⟩
    by_cases he : M.store.memory.blocks.size = blockIndex a
    · rw [he, hself] at ha
      cases ha
    · rw [hne he] at ha
      simpa [he] using hin ha

/-- Taking a frame down takes its slots out of use. -/
theorem releaseAll {xs : List UInt64} (h : Account m st₀ states (xs ++ slots) st) :
    Account m st₀ states slots { st with memory := st.memory.releaseAll xs } := by
  induction xs generalizing st with
  | nil => exact h
  | cons a rest ih => exact ih h.release

/-- Taking all frames down takes all slots out of use. -/
theorem unwind {M : State} (h : Account m st₀ states ((M.frame :: M.callers).flatMap (·.slots)) M.store) :
    Account m st₀ states [] M.unwind := by
  have hall : ∀ (frames : List Frame) (mem : Memory),
      Account m st₀ states (frames.flatMap (·.slots)) { M.store with memory := mem } →
      Account m st₀ states [] { M.store with
        memory := frames.foldl (fun mem f => mem.releaseAll f.slots) mem } := by
    intro frames
    induction frames with
    | nil => exact fun _ h => h
    | cons F rest ih => exact fun mem h => ih _ h.releaseAll
  exact hall (M.frame :: M.callers) M.store.memory h

end Account

/-- Texts that are in memory stay, so those in memory later are those of before and the new ones. -/
theorem countP_eq_add_zip {xs ys : List (Option UInt64)} (hlen : ys.length = xs.length)
    (h : ∀ {k : Nat} {a : UInt64}, xs[k]? = some (some a) → ys[k]? = some (some a)) :
    ys.countP (·.isSome) = xs.countP (·.isSome) +
      (xs.zip ys).countP fun p => p.1.isNone && p.2.isSome := by
  induction xs generalizing ys with
  | nil =>
    cases ys with
    | nil => rfl
    | cons y ys => cases hlen
  | cons x xs ih =>
    cases ys with
    | nil => cases hlen
    | cons y ys =>
      have hlen' : ys.length = xs.length := by simpa using hlen
      have hrest := ih hlen' fun {k a} hk => by simpa using h (k := k + 1) (by simpa using hk)
      have hhead : ∀ a, x = some a → y = some a := fun a ha => by simpa using h (k := 0) (a := a) (by simp [ha])
      simp only [List.zip_cons_cons, List.countP_cons, hrest]
      cases x with
      | none => simp only [Option.isSome_none, Option.isNone_none, Bool.true_and, Bool.false_eq_true, if_false]; omega
      | some a => simp [hhead a rfl]; omega

/-- An account that is closed is a clean-up. -/
theorem Account.cleansUp {m : Module} {st₀ st : Store} {states : List State} (h : Account m st₀ states [] st) :
    CleansUp m states st₀ st where
  kept i hi := by rw [h.old (Memory.lt_of_isLive hi), hi]
  slots M hM hs := by
    by_contra hlive
    exact absurd ((h.made M hM hs).2 (by simpa using hlive)) List.not_mem_nil
  live := by
    have hlive := h.live
    have htexts : st.texts = st₀.texts + st₀.placed st := by
      have hlen : st.globals.toList.length = st₀.globals.toList.length := by simpa using h.globals
      have := countP_eq_add_zip hlen fun {k a} hk => by simpa using h.texts (by simpa using hk)
      simpa [Store.texts, Store.placed] using this
    rw [List.length_nil] at hlive
    omega

/-! ### Frames -/

/-- The constant texts that the functions of a module mention are there. -/
def TextsInRange (m : Module) : Prop := ∀ id f, m.function? id = some f → TextsIn m f

/-- Frames count their depth from one at the bottom. -/
def Depths : List Frame → Prop
  | [] => True
  | F :: rest => F.depth = rest.length + 1 ∧ Depths rest

/-- The frames of a run: they fit the module, and there are no more than allowed. -/
structure Stacked (m : Module) (limit : Nat) (M : State) : Prop where
  fits : M.store.Fits m
  texts : ∀ F ∈ M.frame :: M.callers, TextsIn m F.func
  depths : Depths (M.frame :: M.callers)
  le : M.frame.depth ≤ limit

theorem Memory.size_releaseAll (mem : Memory) (xs : List UInt64) :
    (mem.releaseAll xs).blocks.size = mem.blocks.size := by
  induction xs generalizing mem with
  | nil => rfl
  | cons a rest ih => exact (ih (mem.release a)).trans (by simp [Memory.release])

/-- Only the allocations of the addresses are taken away. -/
theorem Memory.releaseAll_ne {mem : Memory} {xs : List UInt64} {i : Nat} (h : ∀ a ∈ xs, blockIndex a ≠ i) :
    (mem.releaseAll xs).blocks[i]? = mem.blocks[i]? := by
  induction xs generalizing mem with
  | nil => rfl
  | cons a rest ih =>
    refine (ih fun b hb => h b (List.mem_cons_of_mem _ hb)).trans ?_
    exact Array.getElem?_setIfInBounds_ne (h a List.mem_cons_self)

section

variable {m : Module} {limit : Nat} {M M' : State}

theorem Stacked.texts_frame (h : Stacked m limit M) : TextsIn m M.frame.func :=
  h.texts _ List.mem_cons_self

theorem texts_cons {F : Frame} {frames : List Frame} (hF : TextsIn m F.func)
    (h : ∀ G ∈ frames, TextsIn m G.func) : ∀ G ∈ F :: frames, TextsIn m G.func := by
  intro G hG
  rcases List.mem_cons.1 hG with rfl | hG
  · exact hF
  · exact h G hG

/-- A step keeps the frames in order. -/
theorem Move.stacked (h : Move m limit M M') (hm : TextsInRange m) (hM : Stacked m limit M) :
    Stacked m limit M' := by
  have hcallers : ∀ F ∈ M.callers, TextsIn m F.func := fun F hF => hM.texts F (List.mem_cons_of_mem _ hF)
  cases h with
  | work same callers _ gains =>
    refine ⟨hM.fits.of_gains gains, ?_, ?_, by rw [same.depth]; exact hM.le⟩
    · rw [callers]
      exact texts_cons (same.func ▸ hM.texts_frame) hcallers
    · rw [callers, Depths, same.depth]
      exact hM.depths
  | slot func depth _ callers _ _ gains =>
    refine ⟨hM.fits.of_gains gains, ?_, ?_, by rw [depth]; exact hM.le⟩
    · rw [callers]
      exact texts_cons (func ▸ hM.texts_frame) hcallers
    · rw [callers, Depths, depth]
      exact hM.depths
  | call callers _ depth lt func _ _ gains =>
    obtain ⟨id, hid⟩ := func
    refine ⟨hM.fits.of_gains gains, ?_, ⟨?_, callers ▸ hM.depths⟩, by omega⟩
    · rw [callers]
      exact texts_cons (hm id _ hid) hM.texts
    · rw [depth, hM.depths.1, callers]
      rfl
  | ret caller st callers same _ _ gains store =>
    have hdepths := hM.depths
    rw [callers] at hdepths hcallers
    obtain ⟨htop, hcaller, hrest⟩ := hdepths
    have hfits := hM.fits.of_gains gains
    refine ⟨?_, ?_, ⟨same.depth.trans hcaller, hrest⟩, ?_⟩
    · rw [store]
      exact ⟨hfits.globals, by rw [Memory.size_releaseAll]; exact hfits.pos⟩
    · exact texts_cons (same.func ▸ hcallers caller List.mem_cons_self) fun F hF =>
        hcallers F (List.mem_cons_of_mem _ hF)
    · have hle := hM.le
      rw [List.length_cons] at htop
      rw [same.depth]
      omega

/-- No place for a constant text and no number of an allocation is lost. -/
structure Store.Grows (st st' : Store) : Prop where
  globals : st'.globals.size = st.globals.size
  size : st.memory.blocks.size ≤ st'.memory.blocks.size

theorem Store.Grows.trans {st st' st'' : Store} (h : st.Grows st') (h' : st'.Grows st'') : st.Grows st'' :=
  ⟨h'.globals.trans h.globals, Nat.le_trans h.size h'.size⟩

theorem Store.Fits.grows {st st' : Store} (h : st.Fits m) (hg : st.Grows st') : st'.Fits m :=
  ⟨hg.globals.trans h.globals, Nat.lt_of_lt_of_le h.pos hg.size⟩

theorem Gains.grows {C : Prop} {n : Nat} {st st' : Store} (h : Gains m C n st st') : st.Grows st' :=
  ⟨h.globals, h.size⟩

theorem Store.grows_releaseAll (st : Store) (xs : List UInt64) :
    st.Grows { st with memory := st.memory.releaseAll xs } :=
  ⟨rfl, by rw [Memory.size_releaseAll]⟩

theorem Move.grows (h : Move m limit M M') : M.store.Grows M'.store := by
  cases h with
  | work _ _ _ gains => exact gains.grows
  | slot _ _ _ _ _ _ gains => exact gains.grows
  | call _ _ _ _ _ _ _ gains => exact gains.grows
  | ret caller st _ _ _ _ gains store =>
    rw [store]
    exact gains.grows.trans (st.grows_releaseAll _)

theorem Finish.grows {st : Store} (h : Finish m M M' st) : M.store.Grows M'.store := by
  rw [h.store]
  exact h.gains.grows.trans (st.grows_releaseAll _)

theorem Crash.grows (h : Crash m M M') : M.store.Grows M'.store := by
  cases h with
  | here _ _ gains => exact gains.grows
  | called _ _ _ gains => exact gains.grows

theorem State.unwind_grows (M : State) : M.store.Grows M.unwind := by
  have hall : ∀ (frames : List Frame) (mem : Memory),
      (frames.foldl (fun mem f => mem.releaseAll f.slots) mem).blocks.size = mem.blocks.size := by
    intro frames
    induction frames with
    | nil => exact fun _ => rfl
    | cons F rest ih => exact fun mem => (ih _).trans (mem.size_releaseAll F.slots)
  exact ⟨rfl, Nat.le_of_eq (hall _ _).symm⟩

/-! ### Steps -/

/-- The slots of the frames above those of the list `base`, which wait at the bottom. -/
structure Above (m : Module) (st₀ : Store) (states : List State) (base : List Frame) (M : State)
    (upper : List Frame) : Prop where
  callers : M.callers = upper ++ base
  account : Account m st₀ states ((M.frame :: upper).flatMap (·.slots)) M.store

variable {st₀ : Store} {states : List State} {base upper : List Frame}

/-- A step keeps the account of the frames above the base, or returns to the base and closes it. -/
theorem Above.step (h : Above m st₀ states base M upper) (move : Move m limit M M') (hm : TextsInRange m)
    (hM : Stacked m limit M) (hsmall : M'.store.memory.blocks.size ≤ maxBlocks) :
    (∃ upper', Above m st₀ (states ++ [M]) base M' upper') ∨
    (∃ F, base = F :: M'.callers ∧ F.Same M'.frame) ∧ Account m st₀ (states ++ [M]) [] M'.store := by
  have hone : ∀ {N : State}, N.makesSlot = false → ∀ P ∈ [N], P.makesSlot = false := by
    intro N hN P hP
    rw [List.mem_singleton.1 hP, hN]
  have hquiet : M.asksHeap m = false → 0 = [M].countP (·.asksHeap m) := fun hh => by simp [hh]
  cases move with
  | work same callers noSlot gains =>
    refine .inl ⟨upper, callers.trans h.callers, ?_⟩
    rw [List.flatMap_cons, same.slots, ← List.flatMap_cons]
    refine h.account.gain gains hM.texts_frame hsmall (hone noSlot) ?_
    rw [List.countP_singleton]
  | slot func depth slots callers noHeap size gains =>
    refine .inl ⟨upper, callers.trans h.callers, ?_⟩
    rw [List.flatMap_cons, slots]
    exact h.account.slot gains hM.texts_frame hsmall noHeap size
  | call callers slots depth lt func noSlot noHeap gains =>
    obtain ⟨id, hid⟩ := func
    refine .inl ⟨M.frame :: upper, by rw [callers, h.callers]; rfl, ?_⟩
    rw [List.flatMap_cons, slots]
    exact h.account.gain gains ⟨hM.texts_frame, hm id _ hid⟩ hsmall (hone noSlot) (hquiet noHeap)
  | ret caller st callers same noSlot noHeap gains store =>
    have hsmall' : st.memory.blocks.size ≤ maxBlocks := by
      rw [store, Memory.size_releaseAll] at hsmall
      exact hsmall
    have hst := h.account.gain gains hM.texts_frame hsmall' (hone noSlot) (hquiet noHeap)
    rw [List.flatMap_cons] at hst
    have hreleased := hst.releaseAll
    rw [← store] at hreleased
    have hsplit := h.callers.symm.trans callers
    cases upper with
    | nil => exact .inr ⟨⟨caller, hsplit, same⟩, hreleased⟩
    | cons F upper =>
      obtain ⟨rfl, hrest⟩ := List.cons.inj hsplit
      refine .inl ⟨upper, hrest.symm, ?_⟩
      rw [List.flatMap_cons, same.slots, ← List.flatMap_cons]
      exact hreleased

/-! ### Runs -/

variable (m limit)

/-- The states at which a run takes a step that succeeds. -/
def passed : (fuel : Nat) → State → List State
  | 0, _ => []
  | fuel + 1, M =>
    match Exec.step m limit M with
    | .ok none M' => M :: passed fuel M'
    | .ok (some _) _ => [M]
    | .error .. => []

variable {m limit}

theorem run_grows (fuel : Nat) (M : State) : M.store.Grows (run m limit fuel M).store := by
  induction fuel generalizing M with
  | zero => exact M.unwind_grows
  | succ fuel ih =>
    have hstep := step_leads m limit M
    unfold run
    cases hs : Exec.step m limit M with
    | ok r M' =>
      rw [hs] at hstep
      cases hstep with
      | on move => exact move.grows.trans (ih M')
      | done finish => exact finish.grows
    | error e M' =>
      rw [hs] at hstep
      cases hstep with
      | fails _ crash => exact crash.grows.trans M'.unwind_grows

/-- A run closes the account of its frames, however it ends. -/
theorem run_account (hm : TextsInRange m) {fuel : Nat} (h : Above m st₀ states [] M upper)
    (hM : Stacked m limit M) (hsmall : (run m limit fuel M).store.memory.blocks.size ≤ maxBlocks) :
    Account m st₀ (states ++ passed m limit fuel M) [] (run m limit fuel M).store := by
  have hall : ∀ {M : State} {states : List State} {upper : List Frame}, Above m st₀ states [] M upper →
      Account m st₀ states ((M.frame :: M.callers).flatMap (·.slots)) M.store := by
    intro M states upper h
    rw [h.callers, List.append_nil]
    exact h.account
  induction fuel generalizing M states upper with
  | zero =>
    rw [passed, List.append_nil]
    exact (hall h).unwind
  | succ fuel ih =>
    have hstep := step_leads m limit M
    unfold run at hsmall ⊢
    unfold passed
    cases hs : Exec.step m limit M with
    | ok r M' =>
      rw [hs] at hstep hsmall
      cases hstep with
      | on move =>
        have hM' := move.stacked hm hM
        rw [List.append_cons]
        rcases h.step move hm hM (Nat.le_trans (run_grows fuel M').size hsmall) with ⟨upper', h'⟩ | ⟨⟨F, hF, -⟩, -⟩
        · exact ih h' hM' hsmall
        · cases hF
      | done finish =>
        rename_i v st
        have hsize : st.memory.blocks.size ≤ maxBlocks := by
          have : M'.store.memory.blocks.size ≤ maxBlocks := hsmall
          rw [finish.store, Memory.size_releaseAll] at this
          exact this
        have hst : Account m st₀ (states ++ [M]) _ st := (hall h).gain finish.gains hM.texts_frame hsize
          (fun P hP => by rw [List.mem_singleton.1 hP, finish.noSlot]) (by simp [finish.noHeap])
        rw [finish.callers, List.flatMap_cons, List.flatMap_nil] at hst
        show Account m st₀ (states ++ [M]) [] M'.store
        rw [finish.store]
        exact hst.releaseAll
    | error e M' =>
      rw [hs] at hstep hsmall
      rw [List.append_nil]
      cases hstep with
      | fails _ crash =>
        have hsize : M'.store.memory.blocks.size ≤ maxBlocks := Nat.le_trans M'.unwind_grows.size hsmall
        refine Account.unwind ?_
        have hnil : states = states ++ [] := (List.append_nil _).symm
        cases crash with
        | here same callers gains =>
          rw [callers, List.flatMap_cons, same.slots, ← List.flatMap_cons, hnil]
          exact (hall h).gain gains hM.texts_frame hsize (by simp) rfl
        | called callers slots func gains =>
          obtain ⟨id, hid⟩ := func
          rw [callers, List.flatMap_cons, slots, hnil]
          exact (hall h).gain gains ⟨hM.texts_frame, hm id _ hid⟩ hsize (by simp) rfl

/-! ### Calls -/

variable (m limit)

/-- Steps from a state to another, through the states of the list, the last one left out. -/
inductive Passes : State → List State → State → Prop
  | refl (M : State) : Passes M [] M
  | step {M M' N : State} {states : List State} (h : Exec.step m limit M = .ok none M')
      (rest : Passes M' states N) : Passes M (M :: states) N

/-- A function is called at `M` and has returned at `N`; in between, at the states of the list, it runs. -/
structure RunsCall (M : State) (inside : List State) (N : State) : Prop where
  passes : Passes m limit M (M :: inside) N
  called : inside ≠ []
  deeper : ∀ P ∈ inside, M.callers.length < P.callers.length
  back : N.callers.length ≤ M.callers.length

variable {m limit}

theorem move_of_step (h : Exec.step m limit M = .ok none M') : Move m limit M M' := by
  have hstep := step_leads m limit M
  rw [h] at hstep
  cases hstep with
  | on move => exact move

theorem Passes.stacked {N : State} {states : List State} (h : Passes m limit M states N) (hm : TextsInRange m)
    (hM : Stacked m limit M) : Stacked m limit N := by
  induction h with
  | refl M => exact hM
  | step hs _ ih => exact ih ((move_of_step hs).stacked hm hM)

theorem Passes.grows {N : State} {states : List State} (h : Passes m limit M states N) :
    M.store.Grows N.store := by
  induction h with
  | refl M => exact ⟨rfl, Nat.le_refl _⟩
  | step hs _ ih => exact (move_of_step hs).grows.trans ih

/-- Frames above a base run until control is back at the base, and their account is closed then. -/
theorem Above.passes {N : State} {inside : List State} (hp : Passes m limit M inside N) (hm : TextsInRange m)
    (hM : Stacked m limit M) (hsmall : N.store.memory.blocks.size ≤ maxBlocks)
    (h : Above m st₀ states base M upper) (hdeep : ∀ P ∈ inside, base.length ≤ P.callers.length)
    (hback : N.callers.length < base.length) :
    (∃ F, base = F :: N.callers ∧ F.Same N.frame) ∧ Account m st₀ (states ++ inside) [] N.store := by
  induction hp generalizing states upper with
  | refl M =>
    rw [h.callers, List.length_append] at hback
    omega
  | step hs rest ih =>
    rename_i P P' Q tail
    have move := move_of_step hs
    rw [List.append_cons]
    rcases h.step move hm hM (Nat.le_trans rest.grows.size hsmall) with ⟨upper', h'⟩ | ⟨⟨F, hF, hsame⟩, hacc⟩
    · exact ih (move.stacked hm hM) hsmall h' (fun R hR => hdeep R (List.mem_cons_of_mem _ hR)) hback
    · -- back at the base, so nothing runs any more
      cases rest with
      | refl => exact ⟨⟨F, hF, hsame⟩, by rw [List.append_nil]; exact hacc⟩
      | step _ _ =>
        have := hdeep P' (by simp)
        rw [hF] at this
        simp at this

/-- A call that returns restores the depth and cleans up. -/
theorem RunsCall.cleansUp {N : State} {inside : List State} (h : RunsCall m limit M inside N)
    (hm : TextsInRange m) (hM : Stacked m limit M) (hsmall : N.store.memory.blocks.size ≤ maxBlocks) :
    N.callers = M.callers ∧ M.frame.Same N.frame ∧ CleansUp m (M :: inside) M.store N.store := by
  obtain ⟨hp, hne, hdeep, hback⟩ := h
  cases hp with
  | step hs rest =>
    rename_i M₁
    have move := move_of_step hs
    have hmem : M₁ ∈ inside := by
      cases rest with
      | refl => exact absurd rfl hne
      | step _ _ => exact List.mem_cons_self
    have hlt := hdeep M₁ hmem
    cases hmove : move with
    | work _ callers => rw [callers] at hlt; exact absurd hlt (Nat.lt_irrefl _)
    | slot _ _ _ callers => rw [callers] at hlt; exact absurd hlt (Nat.lt_irrefl _)
    | ret caller st callers =>
      rw [callers] at hlt
      simp at hlt
    | call callers slots depth lt func noSlot noHeap gains =>
      have habove : Above m M.store [M] M₁.callers M₁ [] := by
        obtain ⟨id, hid⟩ := func
        refine ⟨rfl, ?_⟩
        rw [List.flatMap_cons, slots]
        exact (Account.start hM.fits).gain gains ⟨hM.texts_frame, hm id _ hid⟩
          (Nat.le_trans rest.grows.size hsmall) (fun P hP => by rw [List.mem_singleton.1 hP, noSlot])
          (by simp [noHeap])
      obtain ⟨⟨F, hF, hsame⟩, hacc⟩ := Above.passes rest hm (move.stacked hm hM) hsmall habove
        (fun P hP => by rw [callers]; exact hdeep P hP) (by rw [callers]; exact Nat.lt_succ_of_le hback)
      rw [callers] at hF
      obtain ⟨rfl, hcallers⟩ := List.cons.inj hF
      exact ⟨hcallers.symm, hsame, hacc.cleansUp⟩

end

/-! ### Sessions -/

/-- The state in which a call from outside takes its first step. -/
def firstState? (m : Module) (limit : Nat) (store : Store) (id : Ir.FuncId) (args : List Val) : Option State :=
  match Frame.ofCall m limit id args 0 with
  | .error _ => none
  | .ok frame =>
    match Exec.enterBlock m Ir.Id.entry none ⟨store.countCall id, frame, []⟩ with
    | .ok () M => some M
    | .error .. => none

namespace Session

/-- The state in which a call takes its first step. -/
def firstState? (s : Session) (name : String) (args : List Val) : Option State :=
  if s.module.pointerBits ≠ 64 then none
  else (s.module.functionNamed? name).bind fun id =>
    Machine.firstState? s.module s.limits.maxCallDepth s.store id args

/-- The states at which a call takes its steps. -/
def steps (s : Session) (name : String) (args : List Val) : List State :=
  (s.firstState? name args).elim [] (passed s.module s.limits.maxCallDepth s.fuelLeft)

/-- The sessions that calls lead to. -/
inductive Reached (m : Module) (limits : Limits) : Session → Prop
  | start : Reached m limits (Session.start m limits)
  | call {s : Session} (h : Reached m limits s) (name : String) (args : List Val) :
      Reached m limits (s.call name args).2

end Session

section

variable {m : Module} {limit : Nat} {store : Store} {id : Ir.FuncId} {args : List Val}

/-- The only frame of a call from outside, before its first step. -/
structure Entered (m : Module) (store : Store) (M : State) : Prop where
  callers : M.callers = []
  slots : M.frame.slots = []
  func : ∃ id, m.function? id = some M.frame.func
  gains : Gains m (TextsIn m M.frame.func) 0 store M.store

/-- A call from outside starts with one frame, or fails before its first step. -/
theorem invoke_leads (m : Module) (limit fuel : Nat) (store : Store) (id : Ir.FuncId) (args : List Val) :
    firstState? m limit store id args = none ∧ ((invoke m limit fuel store id args).store = store ∨
      ∃ M : State, (invoke m limit fuel store id args).store = M.unwind ∧ Entered m store M) ∨
    ∃ M : State, firstState? m limit store id args = some M ∧
      (invoke m limit fuel store id args).store = (run m limit fuel M).store ∧ Entered m store M ∧
      M.frame.depth = 1 ∧ 1 ≤ limit := by
  unfold firstState? invoke
  cases hF : Frame.ofCall m limit id args 0 with
  | error e => exact .inl ⟨rfl, .inl rfl⟩
  | ok F =>
    dsimp only
    obtain ⟨hfunc, hslots, hdepth, hlt⟩ := ofCall_ok hF
    have hcalm := enterBlock_calm (m := m) Ir.Id.entry none ⟨store.countCall id, F, []⟩
    have hcount := Gains.countCall (m := m) (C := TextsIn m F.func) store id
    cases he : Exec.enterBlock m Ir.Id.entry none ⟨store.countCall id, F, []⟩ with
    | ok _ M =>
      rw [he] at hcalm
      obtain ⟨hsame, hc, hg⟩ := hcalm
      refine .inr ⟨M, rfl, rfl, ⟨hc, hsame.slots.trans hslots, ⟨id, ?_⟩, ?_⟩, hsame.depth.trans hdepth, hlt⟩
      · rw [hsame.func]
        exact hfunc
      · rw [hsame.func]
        exact hcount.trans hg
    | error e M =>
      rw [he] at hcalm
      obtain ⟨-, hq⟩ := hcalm
      refine .inl ⟨rfl, .inr ⟨M, rfl, hq.callers, by rw [hq.frame]; exact hslots, ⟨id, ?_⟩, ?_⟩⟩
      · rw [hq.frame]
        exact hfunc
      · rw [hq.frame]
        exact hcount.trans hq.gains

theorem invoke_grows (m : Module) (limit fuel : Nat) (store : Store) (id : Ir.FuncId) (args : List Val) :
    store.Grows (invoke m limit fuel store id args).store := by
  rcases invoke_leads m limit fuel store id args with ⟨-, h | ⟨M, h, he⟩⟩ | ⟨M, -, h, he, -⟩
  · rw [h]
    exact ⟨rfl, Nat.le_refl _⟩
  · rw [h]
    exact he.gains.grows.trans M.unwind_grows
  · rw [h]
    exact he.gains.grows.trans (run_grows fuel M)

/-- A call from outside starts with its frames in order. -/
theorem firstState_stacked (hm : TextsInRange m) (hf : store.Fits m) {M : State}
    (h : firstState? m limit store id args = some M) : Stacked m limit M := by
  rcases invoke_leads m limit 0 store id args with ⟨hn, -⟩ | ⟨M', hs, -, he, hd, hlt⟩
  · rw [hn] at h
    cases h
  · rw [hs] at h
    cases h
    obtain ⟨id', hid⟩ := he.func
    refine ⟨hf.of_gains he.gains, ?_, ?_, by omega⟩
    · rw [he.callers]
      exact texts_cons (hm id' _ hid) (by simp)
    · rw [he.callers]
      exact ⟨hd, trivial⟩

/-- The account of a call from outside, before its first step. -/
theorem Entered.account (hm : TextsInRange m) (hf : store.Fits m) {M : State} (h : Entered m store M)
    (hsmall : M.store.memory.blocks.size ≤ maxBlocks) :
    Account m store [] ((M.frame :: M.callers).flatMap (·.slots)) M.store := by
  obtain ⟨id', hid⟩ := h.func
  rw [h.callers, List.flatMap_cons, h.slots]
  exact (Account.start hf).gain h.gains (hm id' _ hid) hsmall (by simp) rfl

/-- A call from outside closes the account of its frames. -/
theorem invoke_cleansUp (hm : TextsInRange m) (hf : store.Fits m) {fuel : Nat}
    (hsmall : (invoke m limit fuel store id args).store.memory.blocks.size ≤ maxBlocks) :
    CleansUp m ((firstState? m limit store id args).elim [] (passed m limit fuel)) store
      (invoke m limit fuel store id args).store := by
  rcases invoke_leads m limit fuel store id args with ⟨hn, h | ⟨M, h, he⟩⟩ | ⟨M, hs, h, he, -⟩
  · rw [hn, h]
    exact (Account.start hf).cleansUp
  · rw [h] at hsmall
    rw [hn, h]
    exact (he.account hm hf (Nat.le_trans M.unwind_grows.size hsmall)).unwind.cleansUp
  · rw [h] at hsmall
    rw [hs, h]
    have hacc := he.account hm hf (Nat.le_trans (run_grows fuel M).size hsmall)
    have habove : Above m store [] [] M [] := ⟨he.callers, he.callers ▸ hacc⟩
    exact (run_account hm habove (firstState_stacked hm hf hs) hsmall).cleansUp

end

theorem Session.Reached.fits {m : Module} {limits : Limits} {s : Session} (h : Session.Reached m limits s) :
    s.module = m ∧ s.limits = limits ∧ s.store.Fits m := by
  induction h with
  | start => exact ⟨rfl, rfl, by simp [Session.start, Store.fresh], by simp [Session.start, Store.fresh]⟩
  | call h name args ih =>
    rename_i s
    obtain ⟨rfl, rfl, hf⟩ := ih
    unfold Session.call
    split
    · exact ⟨rfl, rfl, hf⟩
    · split
      · exact ⟨rfl, rfl, hf⟩
      · exact ⟨rfl, rfl, hf.grows (invoke_grows ..)⟩

/-- Calls clean up after themselves, also where they fail, in every session with fewer than `2 ^ 32`
allocations. Between the stores before and after a call, its stack slots have been released and nothing else,
and what stays is what the host was asked for and the constant texts used for the first time. During the call
the depth counts the frames and never passes the limit, and every function called on the way returns to the
depth it was called at and has cleaned up by then. -/
theorem calls_clean_up {m : Module} {limits : Limits} {s : Session} (hm : TextsInRange m)
    (hs : Session.Reached m limits s) (name : String) (args : List Val)
    (hfew : (s.call name args).2.store.memory.blocks.size ≤ maxBlocks) :
    CleansUp m (s.steps name args) s.store (s.call name args).2.store ∧
    ∀ first, s.firstState? name args = some first → ∀ states M, Passes m limits.maxCallDepth first states M →
      M.frame.depth = M.callers.length + 1 ∧ M.frame.depth ≤ limits.maxCallDepth ∧
      ∀ inside N, RunsCall m limits.maxCallDepth M inside N → N.store.memory.blocks.size ≤ maxBlocks →
        N.callers = M.callers ∧ N.frame.depth = M.frame.depth ∧ N.frame.slots = M.frame.slots ∧
        CleansUp m (M :: inside) M.store N.store := by
  obtain ⟨rfl, rfl, hf⟩ := hs.fits
  constructor
  · unfold Session.call at hfew ⊢
    unfold Session.steps Session.firstState?
    split at hfew
    · rename_i hbits
      rw [if_pos hbits, if_pos hbits]
      exact (Account.start hf).cleansUp
    · rename_i hbits
      rw [if_neg hbits, if_neg hbits]
      cases hid : s.module.functionNamed? name with
      | none => exact (Account.start hf).cleansUp
      | some id =>
        rw [hid] at hfew
        exact invoke_cleansUp hm hf hfew
  · intro first hfirst states M hp
    have hstacked : Stacked s.module s.limits.maxCallDepth first := by
      unfold Session.firstState? at hfirst
      split at hfirst
      · cases hfirst
      · obtain ⟨id, -, he⟩ := Option.bind_eq_some_iff.1 hfirst
        exact firstState_stacked hm hf he
    have hM := hp.stacked hm hstacked
    refine ⟨hM.depths.1, hM.le, fun inside N hr hsmall => ?_⟩
    obtain ⟨hc, hsame, hclean⟩ := hr.cleansUp hm hM hsmall
    exact ⟨hc, hsame.depth, hsame.slots, hclean⟩

/-- `outer` keeps a slot while `inner` fills a slot of its own, takes a text and heap memory, and divides by
its argument. -/
def ledgerSample : Module where
  name := "ledger"
  pointerBits := 64
  globals := #[⟨".str.0", #[104, 105, 0]⟩]
  hosts := #[⟨hostMalloc, [.i64], .ptr⟩]
  functions := #[
    { name := "outer"
      params := [.i64]
      ret := .i64
      values := #[⟨.i64, .param 0, "n"⟩, ⟨.ptr, .inst ⟨0⟩, "slot"⟩, ⟨.i64, .inst ⟨0⟩, "r"⟩]
      blocks := #[⟨"entry", #[⟨some ⟨1⟩, .alloca .i64⟩, ⟨some ⟨2⟩, .call (.func ⟨1⟩) [⟨0⟩] .i64⟩],
        some (.ret (some ⟨2⟩))⟩] },
    { name := "inner"
      params := [.i64]
      ret := .i64
      values := #[⟨.i64, .param 0, "n"⟩, ⟨.i64, .constInt 16, ""⟩, ⟨.ptr, .global ⟨0⟩, ""⟩,
        ⟨.ptr, .inst ⟨0⟩, "slot"⟩, ⟨.ptr, .inst ⟨0⟩, "cell"⟩, ⟨.i64, .inst ⟨0⟩, "quot"⟩]
      blocks := #[⟨"entry", #[⟨some ⟨3⟩, .alloca .ptr⟩, ⟨none, .store ⟨2⟩ ⟨3⟩⟩,
        ⟨some ⟨4⟩, .call (.host ⟨0⟩) [⟨1⟩] .ptr⟩, ⟨some ⟨5⟩, .binary .udiv ⟨1⟩ ⟨0⟩⟩],
        some (.ret (some ⟨5⟩))⟩] }]

/-- The text and the heap memory outlive a call that fails two frames deep; the slots do not. -/
theorem ledgerSample_cleans_up :
    let s := Session.start ledgerSample ⟨100, 2⟩
    (s.call "outer" [.int 0]).1 = .error (.divisionByZero "inner") ∧
    CleansUp ledgerSample (s.steps "outer" [.int 0]) s.store (s.call "outer" [.int 0]).2.store ∧
    (s.steps "outer" [.int 0]).countP (·.makesSlot) = 2 ∧
    (s.call "outer" [.int 0]).2.liveAllocations = 2 := by
  have hm : TextsInRange ledgerSample := by
    intro id f hf v x g hx hg
    have hglobals : ∀ f ∈ ledgerSample.functions, ∀ x ∈ f.values, ∀ g, x.kind = .global g → g.index = 0 := by
      simp [ledgerSample, eq_comm]
    rw [hglobals f (Array.mem_of_getElem? hf) x (Array.mem_of_getElem? hx) g hg]
    decide
  have hs : Session.Reached ledgerSample ⟨100, 2⟩ (Session.start ledgerSample ⟨100, 2⟩) := .start
  obtain ⟨hclean, -⟩ := calls_clean_up hm hs "outer" [.int 0] (by decide +kernel)
  exact ⟨by decide +kernel, hclean, by decide +kernel, by decide +kernel⟩

end BlockForge.Machine
