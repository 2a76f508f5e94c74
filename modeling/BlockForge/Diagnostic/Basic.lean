import BlockForge.Diagnostic.Code
import BlockForge.Source.Span

/-!
# Diagnostics

A diagnostic has a code, a severity, a one-line message, labels at source spans and notes. Its first
primary label says where it is.
-/

namespace BlockForge.Diagnostic

open Source (Span)

inductive Severity where
  | error | warning
  deriving DecidableEq, Repr

def Severity.render : Severity → String
  | error => "error" | warning => "warning"

/-- A remark at a span; `primary` marks the offending place itself. -/
structure Label where
  primary : Bool
  span : Span
  message : String
  deriving DecidableEq, Repr

/-- The severity that a code is meant for. -/
def Code.severity (c : Code) : Severity := if c.isWarning then .warning else .error

/-- A reported problem. Its severity is the one that its code is meant for. -/
structure Diag where
  code : Code
  severity : Severity := code.severity
  message : String
  labels : List Label := []
  notes : List String := []
  agrees : severity = code.severity := by rfl
  deriving DecidableEq, Repr

namespace Diag

def isError (d : Diag) : Bool := d.severity == .error

/-- A problem with one primary label. -/
def labelled (code : Code) (message : String) (span : Span) (label : String) : Diag :=
  { code, message, labels := [⟨true, span, label⟩] }

/-- Adds a label at a related place. -/
def withRelated (d : Diag) (span : Span) (label : String) : Diag :=
  { d with labels := d.labels ++ [⟨false, span, label⟩] }

def withNote (d : Diag) (note : String) : Diag := { d with notes := d.notes ++ [note] }

/-- The span of the first primary label. -/
def primarySpan? (d : Diag) : Option Span := (d.labels.find? (·.primary)).map (·.span)

/-- Where a diagnostic sorts: its primary start, or the greatest offset if it has none. -/
def position (d : Diag) : UInt32 :=
  match d.primarySpan? with
  | some s => s.start
  | none => 4294967295

def renderLabel (l : Label) : String :=
  "\n  " ++ (if l.primary then "-->" else "   ") ++ " " ++ l.span.render ++ ": " ++ l.message

/-- The message with its labels and notes, one per line. -/
def render (d : Diag) : String :=
  d.severity.render ++ " [" ++ d.code.render ++ "]: " ++ d.message
    ++ String.join (d.labels.map renderLabel)
    ++ String.join (d.notes.map fun n => "\n  = note: " ++ n)

end Diag

/-! ### Problems reported from several places -/

def typeMismatch (span : Span) (expected found context : String) : Diag :=
  .labelled .e2001
    ("type mismatch in " ++ context ++ ": expected `" ++ expected ++ "`, found `" ++ found ++ "`")
    span ("expected `" ++ expected ++ "`")

def unknownIdentifier (span : Span) (name : String) : Diag :=
  .labelled .e2003 ("`" ++ name ++ "` is not defined") span "not found in this scope"

/-! ### Failure -/

/-- Evidence that at least one error was reported. -/
structure ErrorsEmitted where
  count : Nat
  pos : 0 < count

def ErrorsEmitted.ofCount? (count : Nat) : Option ErrorsEmitted :=
  if h : 0 < count then some ⟨count, h⟩ else none

def ErrorsEmitted.message (_ : ErrorsEmitted) : String := "error(s) emitted"

end BlockForge.Diagnostic
