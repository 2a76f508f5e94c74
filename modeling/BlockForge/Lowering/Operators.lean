import BlockForge.Lowering.Fold
import BlockForge.Lowering.Sequence
import BlockForge.Lowering.State

/-!
# Operators

Operands of a binary operator have one type; the only adaptation is that a literal takes the type of
the other operand. The amount of a shift may be of any integer type. `and` and `or` evaluate their
right operand only if the left one does not decide.
-/

namespace BlockForge.Lowering

open Ir (Emit ValueId)
open Source (BinaryOp Expr Span UnaryOp)
open BlockForge.Types (LitKind LitType Ty)

/-! ### Literals -/

/-- The type a literal of the given kind takes where `expected` is wanted. One that cannot take the
type at all keeps its default type; one that is out of range is folded at the type to fail there. -/
def literalType (env : Env) (kind : LitKind) (expected : Option Ty) : Ty :=
  match expected with
  | none => kind.defaultType
  | some target =>
    match (LitType.unbound kind).bind env.layout target with
    | .ok bound => bound.resolve
    | .error .outOfRange => target
    | .error .incompatible => kind.defaultType

/-- A constant of a type. -/
def emitConst (env : Env) (t : Ty) : Const → Emit ValueId
  | .int v => Emit.constInt (env.ir t) (Word.ofInt v)
  | .float bits => Emit.constFloat (env.ir t) bits

/-- Folds a literal expression to a constant of the type that it takes. -/
def lowerLiteral (env : Env) (e : Expr) (kind : LitKind) (expected : Option Ty) :
    Attempt Typed := do
  let t := literalType env kind expected
  match evalConst env.layout t e with
  | .ok c =>
    let value ← Lower.emit (emitConst env t c)
    pure ⟨value, t⟩
  | .error err => Attempt.reject (err.problem t.render)

/-! ### Operands -/

/-- Lowers both operands, even if the left one fails. -/
def lowerBoth (left right : Operand) (expected : Option Ty) : Attempt (Typed × Typed) := do
  let l ← (left.lower expected).run
  let r ← (right.lower expected).run
  let l ← Attempt.of l
  let r ← Attempt.of r
  pure (l, r)

/-- Lowers both operands of an operator. A lone literal takes the type of the other operand, which is
lowered first; that changes no order of evaluation, since a literal emits no instruction. -/
def lowerOperands (op : BinaryOp) (left right : Operand) (span : Span) :
    Attempt (Typed × Typed) := do
  match literalKind left.expr, literalKind right.expr with
  | some a, some b =>
    match a.unify? b with
    | some kind => lowerBoth left right (some kind.defaultType)
    | none =>
      Attempt.reject (Problem.literalKindsDiffer span op.symbol a.describe b.describe)
  | some _, none =>
    let r ← right.lower none
    let l ← left.lower (some r.ty)
    pure (l, r)
  | none, some _ =>
    let l ← left.lower none
    let r ← right.lower (some l.ty)
    pure (l, r)
  | none, none => lowerBoth left right none

/-! ### Arithmetic -/

def lowerArithmetic (env : Env) (op : BinaryOp) (l r : Typed) (span : Span) : Attempt Typed := do
  if !l.ty.isNumeric || !r.ty.isNumeric then
    let first := if l.ty.isNumeric then r.ty else l.ty
    let last := if r.ty.isNumeric then l.ty else r.ty
    Attempt.reject (Problem.nonNumeric span op.symbol first.render last.render)
  else if l.ty ≠ r.ty then
    Attempt.reject (Problem.cannotPerform span op.symbol l.ty.render r.ty.render)
  else if op.isDivision && !l.ty.isFloat && (← get).builder.constIntValue? r.value == some 0 then
    Attempt.reject (Problem.constDivByZero span op.symbol)
  else
    match ← Lower.emit (emitArithmetic op l.ty (env.ir l.ty) l.value r.value) with
    | some value => pure ⟨value, l.ty⟩
    | none => Attempt.fail

/-! ### Comparison -/

/-- Compares two literals at their default type; `none` if they are not two literals of one kind. -/
def foldComparison? (env : Env) (op : BinaryOp) (left right : Expr) : Option (Attempt Typed) := do
  let kind ← (← literalKind left).unify? (← literalKind right)
  let t := kind.defaultType
  match evalConst env.layout t left, evalConst env.layout t right with
  | .ok a, .ok b => some do
    let value ← Lower.emit (Emit.constBool (foldCompare op a b))
    pure ⟨value, .bool⟩
  | .error err, _ | _, .error err => some (Attempt.reject (err.problem t.render))

/-- Whether `null` of type `a` may be compared with a value of type `b`. -/
def nullAgainst (a b : Ty) : Bool := a == .null && (b.isNullable || b == .null)

def lowerComparison (op : BinaryOp) (l r : Typed) (span : Span) : Attempt Typed := do
  if op.isOrdering then
    if l.ty ≠ r.ty then
      Attempt.reject (Problem.cannotCompare span op.symbol l.ty.render r.ty.render)
    else if !l.ty.isOrdered then
      Attempt.reject (Problem.orderingUnsupported span op.symbol l.ty.render)
    else
      let value ← Lower.emit (emitOrdering op l.ty l.value r.value)
      pure ⟨value, .bool⟩
  else if (l.ty == r.ty && l.ty.isEquatable) || nullAgainst l.ty r.ty || nullAgainst r.ty l.ty then
    let value ← Lower.emit (emitEquality (op == .eq) l.ty l.value r.value)
    pure ⟨value, .bool⟩
  else Attempt.reject (Problem.cannotCompare span op.symbol l.ty.render r.ty.render)

/-! ### Bitwise operators -/

def lowerBitwise (env : Env) (op : BinaryOp) (l r : Typed) (span : Span) : Attempt Typed := do
  let problem := Problem.cannotPerform span op.symbol l.ty.render r.ty.render
  if op.isShift then
    if l.ty.isInteger && r.ty.isInteger then
      let value ←
        Lower.emit (emitShift op l.ty (env.ir l.ty) l.value r.value r.ty.isSignedInt)
      pure ⟨value, l.ty⟩
    else Attempt.reject problem
  else if l.ty == r.ty && (l.ty.isInteger || l.ty == .bool) then
    let value ← Lower.emit (emitBitwise op l.value r.value)
    pure ⟨value, l.ty⟩
  else Attempt.reject problem

/-! ### Short circuits -/

/-- Lowers an operand of `and` or `or`. -/
def lowerBoolOperand (op : BinaryOp) (o : Operand) : Attempt ValueId := do
  let v ← o.lower (some .bool)
  if v.ty = .bool then pure v.value
  else
    let context := "operand of `" ++ op.symbol ++ "`"
    Attempt.reject (Diagnostic.typeMismatch o.span "bool" v.ty.render context)

/-- Branches on the left operand and merges the deciding constant with the right operand. -/
def lowerShortCircuit (op : BinaryOp) (left right : Operand) : Attempt Typed := do
  let isAnd := op == .and
  let word := if isAnd then "and" else "or"
  let l ← lowerBoolOperand op left
  let origin ← Attempt.of (← get).builder.current
  let rhs ← Lower.emit (Emit.appendBlock (word ++ ".rhs"))
  let merge ← Lower.emit (Emit.appendBlock (word ++ ".merge"))
  Lower.emit (if isAnd then Emit.condBr l rhs merge else Emit.condBr l merge rhs)
  Lower.emit (Emit.positionAt rhs)
  let r ← (lowerBoolOperand op right).run
  let exit := (← get).builder.current.getD rhs
  if !(← get).builder.currentTerminated then Lower.emit (Emit.br merge)
  Lower.emit (Emit.positionAt merge)
  let r ← Attempt.of r
  let short ← Lower.emit (Emit.constBool !isAnd)
  let value ← Lower.emit (Emit.phi .i1 [(short, origin), (r, exit)] word)
  pure ⟨value, .bool⟩

/-! ### Dispatch -/

/-- A binary operator that is not a literal expression. -/
def lowerBinary (env : Env) (op : BinaryOp) (left right : Operand) (span : Span) :
    Attempt Typed :=
  if op.isLogical then lowerShortCircuit op left right
  else
    match (if op.isComparison then foldComparison? env op left.expr right.expr else none) with
    | some folded => folded
    | none => do
      let (l, r) ← lowerOperands op left right span
      if op.isArithmetic then lowerArithmetic env op l r span
      else if op.isComparison then lowerComparison op l r span
      else lowerBitwise env op l r span

/-- A unary operator that is not a literal expression. -/
def lowerUnary (op : UnaryOp) (operand : Operand) (span : Span) (expected : Option Ty) :
    Attempt Typed := do
  let hint := match op with
    | .not => some Ty.bool
    | _ => expected
  let v ← operand.lower hint
  let wrong (kind : String) : Attempt Typed :=
    Attempt.reject (Problem.unaryOperand span op.symbol kind v.ty.render)
  match op with
  | .plus => if v.ty.isNumeric then pure v else wrong "a numeric"
  | .neg =>
    if v.ty.isFloat then
      let value ← Lower.emit (Emit.fneg v.value "neg")
      pure ⟨value, v.ty⟩
    else if v.ty.isInteger then
      let value ← Lower.emit (Emit.neg v.value "neg")
      pure ⟨value, v.ty⟩
    else wrong "a numeric"
  | .not =>
    if v.ty = .bool then
      let value ← Lower.emit (Emit.not v.value "not")
      pure ⟨value, v.ty⟩
    else wrong "a `bool`"
  | .bitNot =>
    if v.ty.isInteger then
      let value ← Lower.emit (Emit.not v.value "bitnot")
      pure ⟨value, v.ty⟩
    else wrong "an integer"

end BlockForge.Lowering
