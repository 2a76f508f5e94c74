/-!
# Diagnostic codes

Every diagnostic has a code; codes with a W are warnings.
-/

namespace BlockForge.Diagnostic

/-- What a diagnostic is about. -/
inductive Code where
  /-- Type mismatch. -/
  | e2001
  /-- Unknown type name. -/
  | e2002
  /-- Name is not defined. -/
  | e2003
  /-- Wrong number of arguments. -/
  | e2004
  /-- Invalid assignment target. -/
  | e2005
  /-- Name already defined in this scope. -/
  | e2006
  /-- Operator cannot be performed on the given types. -/
  | e2020
  /-- Arithmetic on non-numeric types. -/
  | e2021
  /-- Types cannot be compared. -/
  | e2022
  /-- Ordering on a type that has only equality. -/
  | e2023
  /-- Unary operator on the wrong kind of operand. -/
  | e2024
  /-- Invalid conversion. -/
  | e2025
  /-- Literal cannot take the required type. -/
  | e2026
  /-- A `null` whose type is not known. -/
  | e2027
  /-- Some path does not return a value. -/
  | e2030
  /-- Loop exit outside of a loop. -/
  | e2031
  /-- Unknown field or method. -/
  | e2032
  /-- Constant division by zero. -/
  | e2033
  /-- Unreachable statement. -/
  | w2001
  deriving DecidableEq, Repr

namespace Code

/-- All codes in order. -/
def all : List Code :=
  [e2001, e2002, e2003, e2004, e2005, e2006, e2020, e2021, e2022, e2023, e2024, e2025, e2026, e2027,
    e2030, e2031, e2032, e2033, w2001]

def render : Code → String
  | e2001 => "E2001" | e2002 => "E2002" | e2003 => "E2003" | e2004 => "E2004" | e2005 => "E2005"
  | e2006 => "E2006" | e2020 => "E2020" | e2021 => "E2021" | e2022 => "E2022" | e2023 => "E2023"
  | e2024 => "E2024" | e2025 => "E2025" | e2026 => "E2026" | e2027 => "E2027" | e2030 => "E2030"
  | e2031 => "E2031" | e2032 => "E2032" | e2033 => "E2033" | w2001 => "W2001"

/-- The code with the given text. -/
def ofText? (text : String) : Option Code := all.find? (·.render == text)

def isWarning : Code → Bool
  | w2001 => true
  | _ => false

end Code

end BlockForge.Diagnostic
