import BlockForge.Lowering.Calls
import BlockForge.Lowering.Operators
import BlockForge.Lowering.Records

/-!
# Expressions

`lowerExpr` lowers an expression where a type is expected, or none. The expected type only helps
literals to their type; whoever expects it checks the result.
-/

namespace BlockForge.Lowering

open Ir (Emit)
open Source (Expr Span TypeExpr)
open BlockForge.Types (LitKind LitType Ty)

/-- Reads a variable. -/
def lowerIdent (env : Env) (name : String) (span : Span) : Attempt Typed := do
  match (← get).scope.lookup? name with
  | some (.slot address type) =>
    let value ← Lower.emit (Emit.load (env.ir type) address name)
    pure ⟨value, type⟩
  | some .poisoned => Attempt.fail
  | none => Attempt.reject (Diagnostic.unknownIdentifier span name)

/-- The type a literal under a conversion is lowered at: the target if the literal fits it, so that
nothing has to be converted, else its default type. -/
def castHint (env : Env) (operand : Expr) (target : Ty) : Option Ty :=
  match literalKind operand with
  | none => none
  | some kind =>
    match kind.bind env.layout target, evalConst env.layout target operand with
    | .ok _, .ok _ => some target
    | _, _ => none

/-- `operand as target` -/
def lowerCast (env : Env) (operand : Operand) (target : TypeExpr) (span : Span) :
    Attempt Typed := do
  let target ← Attempt.resolve env target span
  let v ← operand.lower (castHint env operand.expr target)
  match env.layout.classifyCast? v.ty target with
  | none => Attempt.reject (Problem.invalidConversion span v.ty.render target.render)
  | some kind =>
    let value ← Lower.emit (emitCast kind v.value (env.ir target))
    pure ⟨value, target⟩

mutual

/-- Lowers an expression where `expected` is wanted. -/
def lowerExpr (env : Env) : Expr → (expected : Option Ty) → Attempt Typed
  | .int s v, expected => lowerLiteral env (.int s v) (.int v.toNat) expected
  | .float s bits, expected => lowerLiteral env (.float s bits) .float expected
  | .bool _ b, _ => do
    let value ← Lower.emit (Emit.constBool b)
    pure ⟨value, .bool⟩
  | .char _ c, _ => do
    let value ← Lower.emit (Emit.constInt (env.ir .char) (UInt64.ofNat c.toNat))
    pure ⟨value, .char⟩
  | .str _ text, _ => do
    let value ← Lower.emit (Emit.globalString text)
    pure ⟨value, .string⟩
  | .unit _, _ => Lower.unit
  | .null _, _ => do
    let value ← Lower.emit Emit.constNull
    pure ⟨value, .null⟩
  | .ident s name, _ => lowerIdent env name s
  | .unary s op e, expected =>
    match literalKind (.unary s op e) with
    | some kind => lowerLiteral env (.unary s op e) kind expected
    | none => lowerUnary op ⟨e, lowerExpr env e⟩ s expected
  | .binary s op l r, expected =>
    match literalKind (.binary s op l r) with
    | some kind => lowerLiteral env (.binary s op l r) kind expected
    | none => lowerBinary env op ⟨l, lowerExpr env l⟩ ⟨r, lowerExpr env r⟩ s
  | .cast s e t, _ => lowerCast env ⟨e, lowerExpr env e⟩ t s
  | .call s callee args, _ => lowerCall env callee (operands env args) s
  | .methodCall s r method args, _ =>
    lowerMethodCall env ⟨r, lowerExpr env r⟩ method (operands env args) s
  | .field s r name, _ => lowerField env ⟨r, lowerExpr env r⟩ name s
  | .index s r i, _ => lowerIndexing env ⟨r, lowerExpr env r⟩ ⟨i, lowerExpr env i⟩ s
  | .record s name inits, _ => lowerRecord env name (initOperands env inits) s
  | .vectorNew s elem, _ => lowerVectorNew env elem s
termination_by structural e => e

/-- Expressions with their lowerings. -/
def operands (env : Env) : List Expr → List Operand
  | [] => []
  | e :: rest => ⟨e, lowerExpr env e⟩ :: operands env rest
termination_by structural es => es

/-- Initialisers with their lowerings. -/
def initOperands (env : Env) : List (String × Expr) → List (String × Operand)
  | [] => []
  | (name, e) :: rest => (name, ⟨e, lowerExpr env e⟩) :: initOperands env rest
termination_by structural es => es

end

/-- An expression with its lowering. -/
def operand (env : Env) (e : Expr) : Operand := ⟨e, lowerExpr env e⟩

end BlockForge.Lowering
