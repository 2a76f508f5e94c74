import BlockForge.Diagnostic.Basic

/-!
# Diagnostic queue

Collects diagnostics in order of report. One that agrees with a queued one in code, primary span
and message is dropped. Flushing gives them sorted by position, those at one position in order of
report.
-/

namespace BlockForge.Diagnostic

open Source (Span)

/-- What makes two diagnostics the same report. -/
structure Key where
  code : Code
  span : Option Span
  message : String
  deriving DecidableEq, Repr

def Diag.key (d : Diag) : Key := ⟨d.code, d.primarySpan?, d.message⟩

theorem Diag.countP_none : 0 = (#[] : Array Diag).countP (·.isError) := rfl

theorem Key.mem_none (k : Key) : k ∈ ([] : List Key) ↔ ∃ d ∈ (#[] : Array Diag), d.key = k := by simp

/-- The diagnostics kept since the last flush, with a count of the errors among them and their keys. -/
structure Queue where
  kept : Array Diag := #[]
  errors : Nat := 0
  seen : List Key := []
  -- proved by name, so that an empty queue is one term wherever it is written
  errors_eq : errors = kept.countP (·.isError) := by exact BlockForge.Diagnostic.Diag.countP_none
  mem_seen : ∀ k : Key, k ∈ seen ↔ ∃ d ∈ kept, d.key = k := by exact BlockForge.Diagnostic.Key.mem_none

namespace Queue

instance : Inhabited Queue := ⟨{}⟩

/-- Whether a report with this key is queued. -/
def hasKey (q : Queue) (k : Key) : Bool := q.seen.contains k

theorem hasKey_iff {q : Queue} {k : Key} : q.hasKey k = true ↔ ∃ d ∈ q.kept, d.key = k := by
  rw [hasKey, List.contains_iff_mem, q.mem_seen]

/-- Queues a diagnostic; `false` if the same report is already there. -/
def add (q : Queue) (d : Diag) : Bool × Queue :=
  if q.hasKey d.key then (false, q)
  else
    (true,
      { kept := q.kept.push d
        errors := if d.isError then q.errors + 1 else q.errors
        seen := d.key :: q.seen
        errors_eq := by
          rw [Array.countP_push, ← q.errors_eq]
          split <;> rfl
        mem_seen := fun k => by
          simp only [List.mem_cons, q.mem_seen, Array.mem_push, or_and_right, exists_or,
            exists_eq_left]
          rw [or_comm, eq_comm] })

def errorCount (q : Queue) : Nat := q.errors

def warningCount (q : Queue) : Nat := q.kept.size - q.errors

def isEmpty (q : Queue) : Bool := q.kept.isEmpty

/-- The queued diagnostics in order of position, and the empty queue. -/
def flush (q : Queue) : List Diag × Queue :=
  (q.kept.toList.mergeSort fun a b => a.position ≤ b.position, {})

end Queue

end BlockForge.Diagnostic
