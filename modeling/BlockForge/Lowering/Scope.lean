import BlockForge.Ir.Id
import BlockForge.Types.Basic

/-!
# Lexical scopes

Names bound in nested frames, one frame per block of the program. A frame binds a name once; inner
frames shadow outer ones.
-/

namespace BlockForge.Lowering

open BlockForge.Types (Ty)

/-- What a name stands for. -/
inductive Binding where
  /-- A variable kept in a stack slot. -/
  | slot (address : Ir.ValueId) (type : Ty)
  /-- A variable whose declaration failed; its uses fail without a further report. -/
  | poisoned
  deriving Repr

/-- The open frames, innermost first. -/
structure Scope where
  frames : List (List (String × Binding)) := []
  deriving Inhabited

namespace Scope

def push (s : Scope) : Scope := ⟨[] :: s.frames⟩

/-- Closes the innermost frame. -/
def pop (s : Scope) : Scope := ⟨s.frames.tail⟩

/-- Binds a name in the innermost frame; `none` if it is bound there already. -/
def declare? (s : Scope) (name : String) (b : Binding) : Option Scope :=
  match s.frames with
  | [] => none
  | frame :: rest =>
    if (frame.lookup name).isSome then none else some ⟨((name, b) :: frame) :: rest⟩

/-- The innermost binding of a name. -/
def lookup? (s : Scope) (name : String) : Option Binding :=
  s.frames.findSome? fun frame => frame.lookup name

@[simp] theorem pop_push (s : Scope) : s.push.pop = s := rfl

@[simp] theorem lookup?_push (s : Scope) (name : String) : s.push.lookup? name = s.lookup? name :=
  rfl

/-- A name can be bound once in each frame. -/
theorem declare?_isSome_iff {frame : List (String × Binding)} {rest : List (List (String × Binding))}
    {name : String} {b : Binding} :
    ((⟨frame :: rest⟩ : Scope).declare? name b).isSome ↔ frame.lookup name = none := by
  simp only [declare?]
  cases h : frame.lookup name <;> simp

/-- A binding is seen under its own name and under no other. -/
theorem lookup?_of_declare? {s t : Scope} {name other : String} {b : Binding}
    (h : s.declare? name b = some t) :
    t.lookup? other = if other = name then some b else s.lookup? other := by
  obtain ⟨frames⟩ := s
  cases frames with
  | nil => simp [declare?] at h
  | cons frame rest =>
    simp only [declare?] at h
    split at h
    · cases h
    · cases h
      simp only [lookup?, List.findSome?_cons, List.lookup_cons]
      by_cases ho : other = name
      · simp [ho]
      · simp [ho, beq_eq_false_iff_ne.2 ho]

end Scope

end BlockForge.Lowering
