import BlockForge.Ir.Graph
import BlockForge.Proofs.Ir.Building

/-!
# Reachable blocks

The walk over the block graph marks the blocks that control can get to from the entry block, and no
others. A block that is marked is on the worklist or has all of its successors marked; the steps suffice
because each of them takes one block off the worklist and a block enters it only when it is marked.
-/

namespace BlockForge.Ir

/-- How many blocks are not marked. -/
def unmarked (seen : Array Bool) : Nat := seen.toList.count false

/-- Whether a block is marked. -/
abbrev Marked (seen : Array Bool) (i : Nat) : Prop := seen.getD i false = true

theorem marked_lt {seen : Array Bool} {i : Nat} (h : Marked seen i) : i < seen.size := by
  by_contra hi
  simp [Marked, Array.getD_eq_getD_getElem?, Array.getElem?_eq_none (Nat.not_lt.1 hi)] at h

theorem marked_setIfInBounds {seen : Array Bool} {k i : Nat} (hk : k < seen.size) :
    Marked (seen.setIfInBounds k true) i ↔ i = k ∨ Marked seen i := by
  simp only [Marked, Array.getD_eq_getD_getElem?, Array.getElem?_setIfInBounds]
  by_cases hi : k = i
  · subst hi
    simp [hk]
  · simp [hi, Ne.symm hi]

theorem unmarked_setIfInBounds {seen : Array Bool} {k : Nat} (h : seen[k]? = some false) :
    unmarked (seen.setIfInBounds k true) + 1 = unmarked seen := by
  obtain ⟨hk, hf⟩ := Array.getElem?_eq_some_iff.1 h
  have hl : k < seen.toList.length := by simpa using hk
  have hf' : seen.toList[k] = false := by simpa using hf
  have hpos : 0 < seen.toList.count false := List.count_pos_iff.2 (hf' ▸ List.getElem_mem hl)
  have hset : (seen.toList.set k true).count false = seen.toList.count false - 1 := by
    rw [List.count_set hl, hf']
    simp
  rw [unmarked, Array.toList_setIfInBounds, hset, unmarked]
  omega

/-- What marking some blocks does to the worklist and the marks. -/
structure Marks (targets : List BlockId) (work : List Nat) (seen : Array Bool) (work' : List Nat)
    (seen' : Array Bool) : Prop where
  size : seen'.size = seen.size
  cost : work'.length + unmarked seen' = work.length + unmarked seen
  kept : ∀ i, Marked seen i → Marked seen' i
  queued : ∀ i, i ∈ work → i ∈ work'
  fresh : ∀ i, Marked seen' i → Marked seen i ∨ i ∈ work'
  done : ∀ t ∈ targets, t.index < seen.size → Marked seen' t.index
  source : ∀ i ∈ work', i ∈ work ∨ ∃ t ∈ targets, t.index = i

theorem markBlock_marks (work : List Nat) (seen : Array Bool) (t : BlockId) :
    Marks [t] work seen (markBlock work seen t).1 (markBlock work seen t).2 := by
  unfold markBlock
  split
  · rename_i h
    obtain ⟨hk, -⟩ := Array.getElem?_eq_some_iff.1 h
    constructor
    · simp
    · have := unmarked_setIfInBounds h
      simp only [List.length_cons]
      omega
    · exact fun i hi => (marked_setIfInBounds hk).2 (.inr hi)
    · exact fun i hi => List.mem_cons_of_mem _ hi
    · intro i hi
      rcases (marked_setIfInBounds hk).1 hi with rfl | hi
      · exact .inr (List.mem_cons_self ..)
      · exact .inl hi
    · intro u hu _
      rw [List.mem_singleton.1 hu]
      exact (marked_setIfInBounds hk).2 (.inl rfl)
    · intro i hi
      rcases List.mem_cons.1 hi with rfl | hi
      · exact .inr ⟨t, by simp, rfl⟩
      · exact .inl hi
  · rename_i h
    refine ⟨rfl, rfl, fun _ hi => hi, fun _ hi => hi, fun _ hi => .inl hi, ?_, fun _ hi => .inl hi⟩
    intro u hu hlt
    rw [List.mem_singleton.1 hu] at hlt ⊢
    have hne : seen[t.index] ≠ false := fun he => h (by simp [hlt, he])
    simpa [Marked, Array.getD_eq_getD_getElem?, hlt] using hne

theorem foldl_marks (targets : List BlockId) (work : List Nat) (seen : Array Bool) :
    Marks targets work seen
      (targets.foldl (fun (work, seen) s => markBlock work seen s) (work, seen)).1
      (targets.foldl (fun (work, seen) s => markBlock work seen s) (work, seen)).2 := by
  induction targets generalizing work seen with
  | nil =>
    exact ⟨rfl, rfl, fun _ hi => hi, fun _ hi => hi, fun _ hi => .inl hi, by simp,
      fun _ hi => .inl hi⟩
  | cons t rest ih =>
    have h₁ := markBlock_marks work seen t
    have h₂ := ih (markBlock work seen t).1 (markBlock work seen t).2
    rw [List.foldl_cons]
    constructor
    · exact h₂.size.trans h₁.size
    · exact h₂.cost.trans h₁.cost
    · exact fun i hi => h₂.kept i (h₁.kept i hi)
    · exact fun i hi => h₂.queued i (h₁.queued i hi)
    · intro i hi
      rcases h₂.fresh i hi with hi | hi
      · rcases h₁.fresh i hi with hi | hi
        · exact .inl hi
        · exact .inr (h₂.queued i hi)
      · exact .inr hi
    · intro u hu hlt
      rcases List.mem_cons.1 hu with rfl | hu
      · exact h₂.kept _ (h₁.done u (by simp) hlt)
      · exact h₂.done u hu (by rw [h₁.size]; exact hlt)
    · intro i hi
      rcases h₂.source i hi with hi | ⟨u, hu, rfl⟩
      · rcases h₁.source i hi with hi | ⟨u, hu, rfl⟩
        · exact .inl hi
        · exact .inr ⟨u, by simpa using .inl (List.mem_singleton.1 hu), rfl⟩
      · exact .inr ⟨u, by simp [hu], rfl⟩

/-- All successors of a block are marked. -/
def Expanded (successors : Array (List BlockId)) (seen : Array Bool) (i : Nat) : Prop :=
  ∀ t ∈ successors.getD i [], t.index < seen.size → Marked seen t.index

theorem walk_expanded (successors : Array (List BlockId)) (steps : Nat) (work : List Nat)
    (seen : Array Bool) (hc : work.length + unmarked seen ≤ steps)
    (hw : ∀ i, Marked seen i → i ∈ work ∨ Expanded successors seen i) :
    (walk successors steps work seen).size = seen.size ∧
      (∀ i, Marked seen i → Marked (walk successors steps work seen) i) ∧
      ∀ i, Marked (walk successors steps work seen) i →
        Expanded successors (walk successors steps work seen) i := by
  induction steps generalizing work seen with
  | zero =>
    obtain rfl : work = [] := List.eq_nil_of_length_eq_zero (by omega)
    exact ⟨rfl, fun _ hi => hi, fun i hi => (hw i hi).resolve_left (by simp)⟩
  | succ steps ih =>
    cases work with
    | nil => exact ⟨rfl, fun _ hi => hi, fun i hi => (hw i hi).resolve_left (by simp)⟩
    | cons b work =>
      have hm := foldl_marks (successors.getD b []) work seen
      rw [walk]
      generalize hr : (successors.getD b []).foldl (fun (work, seen) s => markBlock work seen s)
        (work, seen) = r at hm
      obtain ⟨work', seen'⟩ := r
      -- the block taken off is expanded now, the others are as they were or on the worklist
      have hw' : ∀ i, Marked seen' i → i ∈ work' ∨ Expanded successors seen' i := by
        intro i hi
        rcases hm.fresh i hi with hi | hi
        · rcases hw i hi with hmem | hexp
          · rcases List.mem_cons.1 hmem with rfl | hmem
            · exact .inr fun t ht hlt => hm.done t ht (by rw [← hm.size]; exact hlt)
            · exact .inl (hm.queued i hmem)
          · exact .inr fun t ht hlt => hm.kept _ (hexp t ht (by rw [← hm.size]; exact hlt))
        · exact .inl hi
      have hcost := hm.cost
      simp only [List.length_cons] at hc
      obtain ⟨h₁, h₂, h₃⟩ := ih work' seen' (by simp only at hcost; omega) hw'
      exact ⟨h₁.trans hm.size, fun i hi => h₂ i (hm.kept i hi), h₃⟩

/-- A set of blocks that is closed under successors holds all marks, if it held them at first. -/
theorem walk_within (successors : Array (List BlockId)) {P : Nat → Prop}
    (hP : ∀ i, P i → ∀ t ∈ successors.getD i [], P t.index) (steps : Nat) (work : List Nat)
    (seen : Array Bool) (hw : ∀ i ∈ work, P i) (hs : ∀ i, Marked seen i → P i) :
    ∀ i, Marked (walk successors steps work seen) i → P i := by
  induction steps generalizing work seen with
  | zero => exact hs
  | succ steps ih =>
    cases work with
    | nil => exact hs
    | cons b work =>
      have hm := foldl_marks (successors.getD b []) work seen
      rw [walk]
      generalize (successors.getD b []).foldl (fun (work, seen) s => markBlock work seen s)
        (work, seen) = r at hm
      obtain ⟨work', seen'⟩ := r
      have hw' : ∀ i ∈ work', P i := by
        intro i hi
        rcases hm.source i hi with hi | ⟨t, ht, rfl⟩
        · exact hw i (by simp [hi])
        · exact hP b (hw b (by simp)) t ht
      refine ih work' seen' hw' fun i hi => ?_
      rcases hm.fresh i hi with hi | hi
      · exact hs i hi
      · exact hw' i hi

/-- Every branch leads to a block that exists. -/
def Function.Bounded (f : Function) : Prop :=
  ∀ ⦃i j : BlockId⦄, i ∈ f.succs j → i.index < f.blocks.size

theorem Function.Ok.bounded {f : Function} {m : Module} (h : f.Ok m) : f.Bounded := by
  intro i j hi
  cases ht : f.ending j with
  | none => simp [succs, ht] at hi
  | some t => exact (h.terms ht).lt_size i (by simpa [succs, ht] using hi)

/-! ### Paths through blocks that exist -/

namespace Function

/-- A way from one block that exists to another. -/
def Edge (f : Function) (i j : BlockId) : Prop :=
  j ∈ f.succs i ∧ i.index < f.blocks.size ∧ j.index < f.blocks.size

/-- A path leads from the entry block to a block, through blocks that exist. -/
def Reaches (f : Function) (i : BlockId) : Prop :=
  Id.entry.index < f.blocks.size ∧ Relation.ReflTransGen f.Edge Id.entry i

theorem lt_size_of_mem_succs {f : Function} {i j : BlockId} (h : j ∈ f.succs i) :
    i.index < f.blocks.size := by
  by_contra hi
  rw [succs, ending_eq_none (Nat.not_lt.1 hi)] at h
  cases h

/-- Only the last block of a path may be missing. -/
theorem reaches_iff {f : Function} {i : BlockId} :
    f.Reaches i ↔ f.Path Id.entry i ∧ i.index < f.blocks.size := by
  constructor
  · intro h
    obtain ⟨hentry, hway⟩ := h
    induction hway with
    | refl => exact ⟨.refl, hentry⟩
    | tail _ hedge ih => exact ⟨ih.1.tail hedge.1, hedge.2.2⟩
  · intro h
    obtain ⟨hpath, hi⟩ := h
    induction hpath with
    | refl => exact ⟨hi, .refl⟩
    | tail _ hmem ih =>
      have ha := lt_size_of_mem_succs hmem
      exact ⟨(ih ha).1, (ih ha).2.tail ⟨hmem, ha, hi⟩⟩

theorem size_successorLists (f : Function) : f.successorLists.size = f.blocks.size := by
  simp [successorLists]

theorem getD_successorLists (f : Function) (i : BlockId) :
    f.successorLists.getD i.index [] = f.succs i := by
  simp only [successorLists, Array.getD_eq_getD_getElem?, Array.getElem?_map, succs, ending]
  cases f.blocks[i.index]? with
  | none => rfl
  | some b =>
    simp only [Option.map_some, Option.getD_some, Block.successors, Option.bind_some]
    cases b.terminator <;> rfl

end Function

/-! ### The reachable set -/

theorem not_marked_replicate (n i : Nat) : ¬Marked (Array.replicate n false) i := by
  simp only [Marked, Array.getD_eq_getD_getElem?, Array.getElem?_replicate]
  split <;> simp

/-- The walk starts at the entry block, which is then the only one that is marked. -/
theorem markBlock_entry (n : Nat) :
    Marks [Id.entry] [] (Array.replicate n false) (markBlock [] (Array.replicate n false) Id.entry).1
      (markBlock [] (Array.replicate n false) Id.entry).2 ∧
    (markBlock [] (Array.replicate n false) Id.entry).1.length +
      unmarked (markBlock [] (Array.replicate n false) Id.entry).2 = n := by
  have hmarks := markBlock_marks [] (Array.replicate n false) Id.entry
  refine ⟨hmarks, ?_⟩
  rw [hmarks.cost]
  simp [unmarked]

/-- The marked blocks are those that a path leads to. -/
theorem Function.marked_iff {f : Function} {i : BlockId} :
    Marked (reachableSet f.successorLists) i.index ↔ f.Reaches i := by
  obtain ⟨hm, hcost⟩ := markBlock_entry f.successorLists.size
  have hfresh := fun k hk => (hm.fresh k hk).resolve_left (not_marked_replicate _ k)
  obtain ⟨hwalk, hkept, hexp⟩ := walk_expanded f.successorLists f.successorLists.size _ _
    (Nat.le_of_eq hcost) fun k hk => .inl (hfresh k hk)
  have hsize : (reachableSet f.successorLists).size = f.blocks.size := by
    rw [← f.size_successorLists, ← Array.size_replicate (n := f.successorLists.size) (v := false), ← hm.size]
    exact hwalk
  constructor
  · intro hi
    -- only blocks that are reached get onto the worklist, the entry block first
    have hwork : ∀ k ∈ (markBlock [] (Array.replicate f.successorLists.size false) Id.entry).1,
        f.Path Id.entry ⟨k⟩ := by
      intro k hk
      rcases hm.source k hk with hk | ⟨t, ht, rfl⟩
      · cases hk
      · rw [List.mem_singleton.1 ht]
        exact .refl
    have hclosed : ∀ k, f.Path Id.entry ⟨k⟩ → ∀ t ∈ f.successorLists.getD k [], f.Path Id.entry t := by
      intro k hk t ht
      rw [f.getD_successorLists ⟨k⟩] at ht
      exact hk.tail ht
    refine reaches_iff.2 ⟨?_, hsize ▸ marked_lt hi⟩
    exact walk_within f.successorLists (P := fun k => f.Path Id.entry ⟨k⟩) hclosed _ _ _ hwork
      (fun k hk => hwork k (hfresh k hk)) _ hi
  · intro hi
    obtain ⟨hentry, hway⟩ := hi
    have hlt : Id.entry.index < (Array.replicate f.successorLists.size false).size := by
      rw [Array.size_replicate, f.size_successorLists]
      exact hentry
    induction hway with
    | refl => exact hkept _ (hm.done Id.entry (by simp) hlt)
    | @tail a b _ hedge ih =>
      refine hexp _ ih b ?_ (Nat.lt_of_lt_of_eq hedge.2.2 hsize.symm)
      rw [f.getD_successorLists]
      exact hedge.1

/-- Where every branch leads to a block that exists, the marked blocks are those that control can get to. Without
blocks nothing is marked, though there is a path from the entry block to itself. -/
theorem Function.Bounded.marked_iff_path {f : Function} (h : f.Bounded) {i : BlockId}
    (hi : i ≠ Id.entry ∨ 0 < f.blocks.size) :
    Marked (reachableSet f.successorLists) i.index ↔ f.Path Id.entry i := by
  rw [marked_iff, reaches_iff, and_iff_left_iff_imp]
  intro hpath
  rcases Relation.ReflTransGen.cases_tail hpath with rfl | ⟨j, -, hj⟩
  · exact hi.resolve_left fun hne => hne rfl
  · exact h hj

theorem Function.Bounded.reachable {f : Function} (h : f.Bounded) (hne : 0 < f.blocks.size)
    {i : BlockId} : Marked (reachableSet f.successorLists) i.index ↔ f.Path Id.entry i :=
  h.marked_iff_path (.inr hne)

/-- Every block that control can get to is marked. -/
theorem Function.Ok.reachable {f : Function} {m : Module} (h : f.Ok m) (hne : 0 < f.blocks.size)
    {i : BlockId} (hp : f.Path Id.entry i) : Marked (reachableSet f.successorLists) i.index :=
  (h.bounded.reachable hne).2 hp

end BlockForge.Ir
