import BlockForge.Diagnostic.Queue
import Mathlib.Data.List.Basic

/-!
# What a queue keeps

A queue is used by adding and flushing in any order. What it gives is fixed by the diagnostics that were
added since the last flush: of each report the first one, in order of position, and where positions agree in
order of addition. The count of errors and the keys that it holds besides the list never drift from it.
-/

namespace BlockForge.Diagnostic

/-! ### Requests -/

/-- A request to a queue. -/
inductive Request where
  | add (d : Diag)
  | flush

/-- The queue after a request. -/
def Queue.serve (q : Queue) : Request → Queue
  | .add d => (q.add d).2
  | .flush => q.flush.2

/-- The queue after requests to a new one. -/
def Queue.after (history : List Request) : Queue := history.foldl Queue.serve {}

/-- What has been added since the last flush, after one more request. -/
def remember (added : List Diag) : Request → List Diag
  | .add d => added ++ [d]
  | .flush => []

/-- What has been added since the last flush, the same report perhaps several times. -/
def addedSince (history : List Request) : List Diag := history.foldl remember []

/-- The first diagnostic of each key. -/
def firsts : List Diag → List Diag
  | [] => []
  | d :: rest => d :: (firsts rest).filter (·.key ≠ d.key)

/-- The offset that a diagnostic is sorted by. -/
def offset (d : Diag) : Nat := (d.primarySpan?.map (·.start.toNat)).getD 4294967295

/-! ### First reports -/

theorem exists_mem_firsts {added : List Diag} {k : Key} :
    (∃ e ∈ firsts added, e.key = k) ↔ ∃ e ∈ added, e.key = k := by
  induction added with
  | nil => rfl
  | cons d rest ih =>
    by_cases hd : d.key = k
    · simp [firsts, hd]
    · have hne : ∀ e : Diag, e.key = k → e.key ≠ d.key := fun e he h => hd (h ▸ he)
      simp only [firsts, List.mem_cons, List.mem_filter, exists_eq_or_imp, hd, false_or, ← ih]
      constructor
      · rintro ⟨e, ⟨he, -⟩, hk⟩
        exact ⟨e, he, hk⟩
      · rintro ⟨e, he, hk⟩
        exact ⟨e, ⟨he, by simpa using hne e hk⟩, hk⟩

/-- Another report is a first one exactly if its key is new. -/
theorem firsts_concat (added : List Diag) (d : Diag) :
    firsts (added ++ [d]) =
      if ∃ e ∈ added, e.key = d.key then firsts added else firsts added ++ [d] := by
  induction added with
  | nil => simp [firsts]
  | cons a rest ih =>
    simp only [List.cons_append, firsts, ih, List.mem_cons, exists_eq_or_imp]
    by_cases ha : a.key = d.key
    · simp only [ha, true_or, if_true]
      split
      · rfl
      · simp
    · simp only [ha, false_or]
      split
      · rfl
      · simp [Ne.symm ha]

/-! ### The list after each request -/

/-- One request keeps the list in step with what was added. -/
theorem kept_serve {q : Queue} {added : List Diag} (h : q.kept.toList = firsts added) (r : Request) :
    (q.serve r).kept.toList = firsts (remember added r) := by
  cases r with
  | flush => rfl
  | add d =>
    have hkey : q.hasKey d.key = true ↔ ∃ e ∈ added, e.key = d.key := by
      rw [Queue.hasKey_iff, ← exists_mem_firsts, ← h]
      simp only [Array.mem_toList_iff]
    simp only [Queue.serve, remember, firsts_concat, ← hkey, Queue.add]
    split
    · exact h
    · rw [Array.toList_push, h]

theorem kept_foldl (history : List Request) {q : Queue} {added : List Diag}
    (h : q.kept.toList = firsts added) :
    (history.foldl Queue.serve q).kept.toList = firsts (history.foldl remember added) := by
  induction history generalizing q added with
  | nil => exact h
  | cons r rest ih => exact ih (kept_serve h r)

theorem kept_after (history : List Request) :
    (Queue.after history).kept.toList = firsts (addedSince history) := kept_foldl history rfl

/-! ### Order of a flush -/

theorem position_le {a b : Diag} : a.position ≤ b.position ↔ offset a ≤ offset b := by
  have hoffset : ∀ d : Diag, d.position.toNat = offset d := by
    intro d
    unfold Diag.position offset
    cases d.primarySpan? <;> rfl
  rw [UInt32.le_iff_toNat_le, hoffset, hoffset]

theorem position_trans (a b c : Diag) (hab : decide (a.position ≤ b.position) = true)
    (hbc : decide (b.position ≤ c.position) = true) : decide (a.position ≤ c.position) = true := by
  simp only [decide_eq_true_eq, position_le] at hab hbc ⊢
  exact Nat.le_trans hab hbc

theorem position_total (a b : Diag) :
    (decide (a.position ≤ b.position) || decide (b.position ≤ a.position)) = true := by
  simp only [Bool.or_eq_true, decide_eq_true_eq, position_le]
  exact Nat.le_total ..

theorem pairwise_flush (q : Queue) : q.flush.1.Pairwise fun a b => offset a ≤ offset b := by
  have h := List.pairwise_mergeSort position_trans position_total q.kept.toList
  exact h.imp fun hab => position_le.1 (by simpa using hab)

/-- A flush moves no diagnostic past another one of the same offset. -/
theorem filter_flush (q : Queue) (n : Nat) :
    q.flush.1.filter (offset · = n) = q.kept.toList.filter (offset · = n) := by
  have hperm : (q.flush.1.filter (offset · = n)).Perm (q.kept.toList.filter (offset · = n)) :=
    (List.mergeSort_perm ..).filter _
  have hsame : (q.kept.toList.filter (offset · = n)).Pairwise fun a b =>
      decide (a.position ≤ b.position) = true := by
    refine List.pairwise_of_forall_mem_list fun a ha b hb => ?_
    simp only [List.mem_filter, decide_eq_true_eq] at ha hb
    simp only [decide_eq_true_eq, position_le, ha.2, hb.2, Nat.le_refl]
  have hsub := List.sublist_mergeSort position_trans position_total hsame List.filter_sublist
  have hfilter := hsub.filter (offset · = n)
  simp only [List.filter_filter, Bool.and_self] at hfilter
  exact (hfilter.eq_of_length hperm.length_eq.symm).symm

/-! ### The queue -/

/-- After any requests, a queue holds the first report of each key among the diagnostics added since the last
flush. A flush gives these in order of offset, and in order of addition at each offset; they are the errors and
warnings that are counted, and nothing but their keys is refused. -/
theorem queue_keeps_first_reports (history : List Request) :
    let q := Queue.after history
    let reports := firsts (addedSince history)
    (q.flush.1.Perm reports ∧ (q.flush.1.Pairwise fun a b => offset a ≤ offset b) ∧
      ∀ n, q.flush.1.filter (offset · = n) = reports.filter (offset · = n)) ∧
    q.errorCount = reports.countP (·.isError) ∧ q.warningCount = reports.countP (!·.isError) ∧
    ∀ d, (q.add d).1 = false ↔ ∃ e ∈ reports, e.key = d.key := by
  intro q reports
  have hkept : q.kept.toList = reports := kept_after history
  have herrors : q.errorCount = reports.countP (·.isError) := by
    rw [Queue.errorCount, q.errors_eq, ← hkept, Array.countP_toList]
  refine ⟨⟨?_, pairwise_flush q, fun n => ?_⟩, herrors, ?_, fun d => ?_⟩
  · rw [← hkept]
    exact List.mergeSort_perm ..
  · rw [filter_flush, hkept]
  · have hsize : q.kept.size = reports.length := by rw [← hkept, Array.length_toList]
    have hsplit := List.length_eq_countP_add_countP (fun d : Diag => d.isError) (l := reports)
    simp only [Bool.not_eq_true, Bool.decide_eq_false] at hsplit
    rw [Queue.warningCount, hsize, ← Queue.errorCount, herrors]
    omega
  · have hkey : q.hasKey d.key = true ↔ ∃ e ∈ reports, e.key = d.key := by
      rw [Queue.hasKey_iff, ← hkept]
      simp only [Array.mem_toList_iff]
    rw [← hkey, Queue.add]
    split
    · simp [*]
    · simp [*]

end BlockForge.Diagnostic
