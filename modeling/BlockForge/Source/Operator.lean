/-!
# Operators

The binary and unary operators of the source language, their symbols and their classes. Every
binary operator is in exactly one of the classes arithmetic, comparison, logical and bitwise.
-/

namespace BlockForge.Source

/-- Binary operators. `rem` has the sign of the dividend, `mod` that of the divisor. -/
inductive BinaryOp where
  | add | sub | mul | div | rem | mod
  | eq | ne | lt | le | gt | ge
  | and | or
  | bitAnd | bitOr | bitXor | shl | shr
  deriving DecidableEq, Repr

namespace BinaryOp

/-- The operator as written in source and in messages. -/
def symbol : BinaryOp → String
  | add => "+" | sub => "-" | mul => "*" | div => "div" | rem => "rem" | mod => "mod"
  | eq => "==" | ne => "!=" | lt => "<" | le => "<=" | gt => ">" | ge => ">="
  | and => "and" | or => "or"
  | bitAnd => "&" | bitOr => "|" | bitXor => "^" | shl => "<<" | shr => ">>"

def isArithmetic : BinaryOp → Bool
  | add | sub | mul | div | rem | mod => true
  | _ => false

def isComparison : BinaryOp → Bool
  | eq | ne | lt | le | gt | ge => true
  | _ => false

/-- The comparisons that need an order. -/
def isOrdering : BinaryOp → Bool
  | lt | le | gt | ge => true
  | _ => false

/-- The operators that may skip their right operand. -/
def isLogical : BinaryOp → Bool
  | and | or => true
  | _ => false

def isBitwise : BinaryOp → Bool
  | bitAnd | bitOr | bitXor | shl | shr => true
  | _ => false

def isShift : BinaryOp → Bool
  | shl | shr => true
  | _ => false

/-- Whether the operator divides by its right operand. -/
def isDivision : BinaryOp → Bool
  | div | rem | mod => true
  | _ => false

/-- The four classes partition the operators. -/
theorem one_class (op : BinaryOp) :
    [op.isArithmetic, op.isComparison, op.isLogical, op.isBitwise].count true = 1 := by
  cases op <;> rfl

end BinaryOp

/-- Unary operators. -/
inductive UnaryOp where
  | plus | neg | not | bitNot
  deriving DecidableEq, Repr

/-- The operator as written in source and in messages. -/
def UnaryOp.symbol : UnaryOp → String
  | plus => "+" | neg => "-" | not => "not" | bitNot => "~"

end BlockForge.Source
