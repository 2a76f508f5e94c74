import BlockForge.Proofs.Ir.Reach

/-!
# The search for reachable blocks

The search is a loop that runs until its worklist is empty. It ends by itself after at most as many rounds as
there are blocks, whatever the graph looks like, and lists in order the blocks that a path leads to.
-/

namespace BlockForge.Ir

/-- The marks and the worklist after the successors of a block have been visited. -/
def expand (successors : Array (List BlockId)) (b : Nat) (work : List Nat) (seen : Array Bool) :
    List Nat × Array Bool :=
  (successors.getD b []).foldl (fun (work, seen) s => markBlock work seen s) (work, seen)

/-- From a worklist and marks the loop runs until the worklist is empty, without a bound on its rounds. Each
block that it takes off exists. -/
inductive Drains (successors : Array (List BlockId)) : List Nat → Array Bool → Nat → Array Bool → Prop
  | done (seen : Array Bool) : Drains successors [] seen 0 seen
  | round {b : Nat} {work : List Nat} {seen last : Array Bool} {rounds : Nat} (present : b < successors.size)
      (rest : Drains successors (expand successors b work seen).1 (expand successors b work seen).2 rounds last) :
      Drains successors (b :: work) seen (rounds + 1) last

theorem markBlock_lt {work : List Nat} {seen : Array Bool} (h : ∀ i ∈ work, i < seen.size) (t : BlockId) :
    ∀ i ∈ (markBlock work seen t).1, i < (markBlock work seen t).2.size := by
  unfold markBlock
  split
  · rename_i hfalse
    obtain ⟨hlt, -⟩ := Array.getElem?_eq_some_iff.1 hfalse
    intro i hi
    rw [Array.size_setIfInBounds]
    rcases List.mem_cons.1 hi with rfl | hi
    · exact hlt
    · exact h i hi
  · exact h

theorem expand_lt (successors : Array (List BlockId)) (b : Nat) {work : List Nat} {seen : Array Bool}
    (h : ∀ i ∈ work, i < seen.size) :
    ∀ i ∈ (expand successors b work seen).1, i < (expand successors b work seen).2.size := by
  unfold expand
  generalize successors.getD b [] = targets
  induction targets generalizing work seen with
  | nil => exact h
  | cons t rest ih => exact ih (markBlock_lt h t)

/-- The bounded walk is the loop, once its steps cover the worklist and the blocks without a mark. -/
theorem walk_drains (successors : Array (List BlockId)) (steps : Nat) (work : List Nat) (seen : Array Bool)
    (hc : work.length + unmarked seen ≤ steps) (hs : seen.size = successors.size)
    (hw : ∀ i ∈ work, i < seen.size) :
    ∃ rounds ≤ steps, Drains successors work seen rounds (walk successors steps work seen) := by
  induction steps generalizing work seen with
  | zero =>
    obtain rfl : work = [] := List.eq_nil_of_length_eq_zero (by omega)
    exact ⟨0, Nat.le_refl _, .done seen⟩
  | succ steps ih =>
    cases work with
    | nil => exact ⟨0, Nat.zero_le _, .done seen⟩
    | cons b work =>
      have hm := foldl_marks (successors.getD b []) work seen
      -- a block that is put on the worklist is marked then, so a round costs only the block that it takes off
      have hcost : (expand successors b work seen).1.length + unmarked (expand successors b work seen).2 =
          work.length + unmarked seen := hm.cost
      have hsize : (expand successors b work seen).2.size = seen.size := hm.size
      have hlt := expand_lt successors b fun i hi => hw i (List.mem_cons_of_mem _ hi)
      rw [List.length_cons] at hc
      obtain ⟨rounds, hle, hrest⟩ := ih _ _ (by omega) (hsize.trans hs) hlt
      have hb : b < successors.size := hs ▸ hw b (List.mem_cons_self ..)
      exact ⟨rounds + 1, Nat.succ_le_succ hle, .round hb hrest⟩

namespace Function

theorem mem_reachableBlocks {f : Function} {i : BlockId} : i ∈ f.reachableBlocks ↔ f.Reaches i := by
  rw [← marked_iff]
  unfold reachableBlocks
  simp only [List.mem_map, List.mem_filter, List.mem_range]
  constructor
  · intro h
    obtain ⟨k, ⟨-, hk⟩, rfl⟩ := h
    exact hk
  · intro h
    exact ⟨i.index, ⟨(reaches_iff.1 (marked_iff.1 h)).2, h⟩, rfl⟩

theorem reachableBlocks_sorted (f : Function) :
    f.reachableBlocks.Pairwise fun i j => i.index < j.index := by
  unfold reachableBlocks
  rw [List.pairwise_map]
  exact (List.pairwise_lt_range).filter _

/-- The state in which the search starts: the entry block is marked and waits, if there is one. -/
def searchStart (f : Function) : List Nat × Array Bool :=
  markBlock [] (Array.replicate f.blocks.size false) Id.entry

theorem search_drains (f : Function) : ∃ rounds ≤ f.blocks.size,
    Drains f.successorLists f.searchStart.1 f.searchStart.2 rounds (reachableSet f.successorLists) := by
  have hsize := f.size_successorLists
  obtain ⟨hm, hcost⟩ := markBlock_entry f.successorLists.size
  have hnone : ∀ i ∈ ([] : List Nat), i < (Array.replicate f.successorLists.size false).size := by
    intro i hi
    cases hi
  have hlt := markBlock_lt hnone Id.entry
  have hdrains := walk_drains f.successorLists f.successorLists.size _ _ (Nat.le_of_eq hcost)
    (by rw [hm.size, Array.size_replicate]) hlt
  unfold searchStart
  rw [← hsize]
  exact hdrains

/-- On every graph the search ends, and lists in increasing order exactly the blocks that a path leads to. -/
theorem reachableBlocks_exact (f : Function) :
    (∃ rounds ≤ f.blocks.size,
      Drains f.successorLists f.searchStart.1 f.searchStart.2 rounds (reachableSet f.successorLists)) ∧
    f.reachableBlocks.Pairwise (fun i j => i.index < j.index) ∧
    (∀ i, i ∈ f.reachableBlocks ↔ f.Reaches i) ∧
    (f.reachableBlocks = [] ↔ f.blocks = #[]) := by
  refine ⟨f.search_drains, f.reachableBlocks_sorted, fun i => mem_reachableBlocks, ?_⟩
  constructor
  · intro hnil
    by_contra hne
    have hentry : f.Reaches Id.entry := ⟨Array.size_pos_iff.2 hne, .refl⟩
    have hmem := mem_reachableBlocks.2 hentry
    rw [hnil] at hmem
    cases hmem
  · intro hempty
    rw [List.eq_nil_iff_forall_not_mem]
    intro i hi
    have hlt := (mem_reachableBlocks.1 hi).1
    rw [hempty] at hlt
    exact Nat.not_lt_zero _ hlt

end Function

/-- A loop, a block that branches to itself, one without a way in and a branch past the last block. -/
example : ({ name := "f", params := [], ret := .void, values := #[], blocks := #[
    ⟨"entry", #[], some (.condBr ⟨0⟩ ⟨4⟩ ⟨2⟩)⟩, ⟨"orphan", #[], some (.br ⟨0⟩)⟩,
    ⟨"turn", #[], some (.condBr ⟨0⟩ ⟨2⟩ ⟨9⟩)⟩, ⟨"lost", #[], none⟩,
    ⟨"back", #[], some (.br ⟨0⟩)⟩] } : Function).reachableBlocks = [⟨0⟩, ⟨2⟩, ⟨4⟩] := by cbv

end BlockForge.Ir
