import BlockForge.Numeric.Power
import BlockForge.Lowering.Problem
import BlockForge.Numeric.Binary64
import BlockForge.Source.Tree
import BlockForge.Types.Literal

/-!
# Constant folding

An expression of numeric literals, signs and arithmetic or bitwise operators is a literal too: it
takes its type from context and folds to one constant of that type. Every subexpression has to fit
the type, except that an integer literal directly under a minus sign is judged with its sign.
-/

namespace BlockForge.Lowering

open Diagnostic (Diag)
open Source (BinaryOp Expr Span UnaryOp)
open BlockForge.Types (Layout LitKind Ty)

/-- The kind of a literal expression; `none` if it is none. The value in an integer kind is the
literal's, up to signs, and zero for an operator, whose range is checked by folding. -/
def literalKind : Expr → Option LitKind
  | .int _ v => some (.int v.toNat)
  | .float _ _ => some .float
  | .unary _ .neg e =>
    (literalKind e).map fun
      | .int v => .int (-v)
      | .float => .float
  | .unary _ .plus e => literalKind e
  | .binary _ op l r =>
    if op.isArithmetic || op.isBitwise then
      match literalKind l, literalKind r with
      | some a, some b =>
        (a.unify? b).map fun
          | .int _ => .int 0
          | .float => .float
      | _, _ => none
    else none
  | _ => none

/-- A folded constant. -/
inductive Const where
  | int (value : Int)
  | float (bits : UInt64)
  deriving DecidableEq, Repr

/-- Why folding fails at a node. -/
inductive FoldCause where
  /-- A value that does not fit the type. -/
  | outOfRange (value : Int)
  | divisionByZero (op : BinaryOp)
  /-- An amount that is negative or not below the width. -/
  | shiftAmount (amount : Int)
  /-- An operator that has no meaning on the operands. -/
  | notInteger (op : BinaryOp)
  deriving DecidableEq, Repr

/-- A failure with the node where it happened; `leaf` for a literal, perhaps with signs. -/
structure FoldError where
  cause : FoldCause
  span : Span
  leaf : Bool
  deriving DecidableEq, Repr

/-! ### Integers -/

/-- Reduces an integer to a width by wrapping. -/
def wrapToWidth (value : Int) (bits : Nat) (signed : Bool) : Int :=
  let masked := Wide.bitwise (· &&& ·) value (Wide.wrap (Wide.shiftOne bits - 1))
  if signed ∧ Wide.shiftOne (Wide.widthPred bits) ≤ masked then
    Wide.wrap (masked - Wide.shiftOne bits)
  else masked

/-- A result of the 128-bit range, or an overflow. -/
def inWide (value : Int) : Except FoldCause Int :=
  if Wide.inRange value then .ok value else .error (.outOfRange Wide.max)

/-- The remainder that has the sign of the divisor. -/
def floorMod (a b : Int) : Int :=
  let r := a.tmod b
  if r ≠ 0 ∧ (decide (r < 0) ≠ decide (b < 0)) then r + b else r

/-- An operator on integers of a type. Division truncates, a left shift wraps at the type's width. -/
def foldInt (l : Layout) (t : Ty) (op : BinaryOp) (a b : Int) : Except FoldCause Int :=
  let bits := (t.intWidth?.map l.intBits).getD 64
  match op with
  | .add => inWide (a + b)
  | .sub => inWide (a - b)
  | .mul => inWide (a * b)
  | .div => if b = 0 then .error (.divisionByZero op) else .ok (a.tdiv b)
  | .rem => if b = 0 then .error (.divisionByZero op) else .ok (a.tmod b)
  | .mod => if b = 0 then .error (.divisionByZero op) else .ok (floorMod a b)
  | .bitAnd => .ok (Wide.bitwise (· &&& ·) a b)
  | .bitOr => .ok (Wide.bitwise (· ||| ·) a b)
  | .bitXor => .ok (Wide.bitwise (· ^^^ ·) a b)
  | .shl =>
    if b < 0 ∨ (bits : Int) ≤ b then .error (.shiftAmount b)
    else .ok (wrapToWidth (Wide.wrap (a * pow2 (b.toNat % 128))) bits t.isSignedInt)
  | .shr =>
    if b < 0 ∨ (bits : Int) ≤ b then .error (.shiftAmount b)
    else .ok (a / pow2 (b.toNat % 128))
  | _ => .error (.notInteger op)

/-! ### Floats -/

/-- The remainder that has the sign of the divisor; a zero remainder stays as it is. -/
def floatMod (a b : UInt64) : UInt64 :=
  let r := Binary64.rem a b
  if !Binary64.eq r 0 && (Binary64.lt r 0 != Binary64.lt b 0) then Binary64.add r b else r

def foldFloat (op : BinaryOp) (a b : UInt64) : Except FoldCause UInt64 :=
  match op with
  | .add => .ok (Binary64.add a b)
  | .sub => .ok (Binary64.sub a b)
  | .mul => .ok (Binary64.mul a b)
  | .div => .ok (Binary64.div a b)
  | .rem => .ok (Binary64.rem a b)
  | .mod => .ok (floatMod a b)
  | _ => .error (.notInteger op)

/-! ### Expressions -/

def foldBinary (l : Layout) (t : Ty) (op : BinaryOp) : Const → Const → Except FoldCause Const
  | .int a, .int b => (foldInt l t op a b).map .int
  | .float a, .float b => (foldFloat op a b).map .float
  | _, _ => .error (.notInteger op)

/-- An integer literal at a type; at a float type it is the nearest float. -/
def intLeaf (t : Ty) (value : Int) : Const :=
  if t.isFloat then .float (Binary64.ofInt value) else .int value

/-- Checks that a constant fits the type; floats are rounded to it. -/
def fitConst (l : Layout) (t : Ty) : Const → Except FoldCause Const
  | .int v =>
    match l.intRange? t with
    | some (lo, hi) => if v < lo ∨ hi < v then .error (.outOfRange v) else .ok (.int v)
    | none => .ok (.int v)
  | .float bits => .ok (.float (if t = .f32 then Binary64.roundSingle bits else bits))

/-- Flips the sign of a constant. -/
def Const.neg : Const → Const
  | int v => int (Wide.wrap (-v))
  | float bits => float (Binary64.neg bits)

/-- Puts a failure at a node. -/
def FoldError.locate {α : Type} (span : Span) (leaf : Bool) (r : Except FoldCause α) :
    Except FoldError α :=
  r.mapError fun cause => ⟨cause, span, leaf⟩

/-- The value of a literal expression at a type. -/
def evalConst (l : Layout) (t : Ty) : Expr → Except FoldError Const
  | .int s v => FoldError.locate s true (fitConst l t (intLeaf t v.toNat))
  | .float s bits => FoldError.locate s false (fitConst l t (.float bits))
  | .unary s .neg (.int _ v) => FoldError.locate s true (fitConst l t (intLeaf t (-(v.toNat : Int))))
  | .unary s op e =>
    match evalConst l t e with
    | .error err => .error err
    | .ok c => FoldError.locate s true (fitConst l t (if op = .neg then c.neg else c))
  | .binary s op a b =>
    match evalConst l t a with
    | .error err => .error err
    | .ok ca =>
      match evalConst l t b with
      | .error err => .error err
      | .ok cb =>
        FoldError.locate s false ((foldBinary l t op ca cb).bind (fitConst l t))
  | e => .error ⟨.outOfRange 0, e.span, false⟩

/-! ### Comparison -/

/-- How two constants are ordered; floats may be unordered. -/
def Const.order? : Const → Const → Option Ordering
  | int a, int b => some (compare a b)
  | float a, float b =>
    if Binary64.lt a b then some .lt
    else if Binary64.eq a b then some .eq
    else if Binary64.lt b a then some .gt
    else none
  | _, _ => none

/-- A comparison of two constants of one type. Unordered constants are only `!=`. -/
def foldCompare (op : BinaryOp) (a b : Const) : Bool :=
  match op, a.order? b with
  | .eq, some .eq => true
  | .ne, some .eq => false
  | .ne, _ => true
  | .lt, some .lt => true
  | .le, some .lt | .le, some .eq => true
  | .gt, some .gt => true
  | .ge, some .gt | .ge, some .eq => true
  | _, _ => false

/-! ### Messages -/

/-- The failure as a problem of an expression that folds at the shown type. -/
def FoldError.problem (e : FoldError) (type : String) : Diag :=
  match e.cause with
  | .outOfRange v =>
    let what :=
      if e.leaf then "integer literal `" ++ toString v ++ "`"
      else if v = Wide.max then "constant expression"
      else "constant value `" ++ toString v ++ "`"
    Problem.literalOutOfRange e.span what type
  | .divisionByZero op => Problem.constDivByZero e.span op.symbol
  | .shiftAmount n =>
    Problem.literalOutOfRange e.span ("shift amount `" ++ toString n ++ "`") type
  | .notInteger op => Problem.cannotPerform e.span op.symbol type type

end BlockForge.Lowering
