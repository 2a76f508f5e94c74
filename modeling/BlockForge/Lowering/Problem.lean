import BlockForge.Diagnostic.Basic

/-!
# Problems found by lowering

One constructor function per rule that a program can break. Every message is a single line that names
the operation, the rule and the types involved.
-/

namespace BlockForge.Lowering.Problem

open Diagnostic (Diag)
open Source (Span)

/-- A text in backquotes. -/
def quote (text : String) : String := "`" ++ text ++ "`"

/-! ### Operators -/

def cannotPerform (span : Span) (op left right : String) : Diag :=
  .labelled .e2020
    ("cannot perform " ++ quote op ++ " on " ++ quote left ++ " and " ++ quote right)
    span "operand types must be identical"

def nonNumeric (span : Span) (op left right : String) : Diag :=
  let types := if left = right then quote left else quote left ++ " and " ++ quote right
  .labelled .e2021 ("cannot perform " ++ quote op ++ " on non-numeric types " ++ types)
    span "arithmetic requires numeric operands"

def cannotCompare (span : Span) (op left right : String) : Diag :=
  .labelled .e2022
    ("cannot compare " ++ quote left ++ " and " ++ quote right ++ " with " ++ quote op)
    span "incomparable types"

def orderingUnsupported (span : Span) (op type : String) : Diag :=
  .labelled .e2023
    ("operator " ++ quote op ++ " is not supported for " ++ quote type
      ++ ", which only supports `==` and `!=`")
    span "not ordered"

def unaryOperand (span : Span) (op kind found : String) : Diag :=
  .labelled .e2024
    ("unary " ++ quote op ++ " requires " ++ kind ++ " operand, got " ++ quote found)
    span ("expected " ++ kind ++ " operand")

def invalidConversion (span : Span) (source target : String) : Diag :=
  .labelled .e2025 ("cannot convert " ++ quote source ++ " to " ++ quote target ++ " with `as`")
    span "unsupported conversion"

def literalOutOfRange (span : Span) (literal type : String) : Diag :=
  .labelled .e2026 (literal ++ " does not fit in " ++ quote type)
    span ("out of range for " ++ quote type)

def literalKindsDiffer (span : Span) (op left right : String) : Diag :=
  (Diag.labelled .e2026 ("cannot bind " ++ left ++ " and " ++ right ++ " in " ++ quote op)
    span "literal kinds differ").withNote "add a type annotation or a conversion with `as`"

def nullNeedsReference (span : Span) (context : String) : Diag :=
  .labelled .e2027 ("`null` needs an aggregate or vector type in " ++ context)
    span "type cannot be inferred from `null`"

def constDivByZero (span : Span) (op : String) : Diag :=
  .labelled .e2033 ("attempt to compute " ++ quote op ++ " with a divisor of zero")
    span "divisor is zero"

/-! ### Names and types -/

def unknownType (span : Span) (name : String) : Diag :=
  .labelled .e2002 ("unknown type " ++ quote name) span "not a built-in or declared type"

def alreadyDefined (span : Span) (what name : String) : Diag :=
  .labelled .e2006 (what ++ " " ++ quote name ++ " is already defined in this scope")
    span "redefined here"

/-- A second definition, with a pointer to the one that stays. -/
def redefined (span first : Span) (what name : String) : Diag :=
  (alreadyDefined span what name).withRelated first ("first definition of " ++ quote name)

def unknownField (span : Span) (field type : String) : Diag :=
  .labelled .e2032 ("no field " ++ quote field ++ " on type " ++ quote type) span "unknown field"

def missingField (span : Span) (field type : String) : Diag :=
  .labelled .e2032 ("missing field " ++ quote field ++ " in " ++ quote type ++ " literal")
    span (quote field ++ " not initialized")

def unknownMethod (span : Span) (method type : String) : Diag :=
  .labelled .e2032 ("no method " ++ quote method ++ " on type " ++ quote type)
    span "unknown method"

def notIndexable (span : Span) (type : String) : Diag :=
  .labelled .e2032 ("cannot index into a value of type " ++ quote type)
    span "only `Vector<T>` supports indexing"

/-! ### Calls and statements -/

def argCount (span : Span) (what name : String) (expected found : Nat) : Diag :=
  let arguments := toString expected ++ " argument" ++ (if expected = 1 then "" else "s")
  .labelled .e2004
    (what ++ " " ++ quote name ++ " takes " ++ arguments ++ " but " ++ toString found
      ++ " were supplied")
    span ("expected " ++ arguments)

def invalidAssignTarget (span : Span) : Diag :=
  .labelled .e2005 "invalid assignment target: expected a variable, field or vector element"
    span "cannot assign to this expression"

def missingReturn (span : Span) (func type : String) : Diag :=
  .labelled .e2030
    ("function " ++ quote func ++ " must return a value of type " ++ quote type
      ++ " on every path")
    span "control reaches the end of the body"

def outsideLoop (span : Span) (keyword : String) : Diag :=
  .labelled .e2031 (quote keyword ++ " outside of a loop")
    span (quote keyword ++ " is only valid inside `while`")

def unreachableCode (span : Span) : Diag :=
  .labelled .w2001 "unreachable statement" span "follows an unconditional exit"

end BlockForge.Lowering.Problem
