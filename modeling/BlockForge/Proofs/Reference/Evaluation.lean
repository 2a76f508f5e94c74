import BlockForge.Lowering.Program
import BlockForge.Proofs.Reference.Heap

/-!
# Evaluation

A definitional interpreter for expressions: operands and arguments left to right, `and` and `or` only as far as
needed, variables that are shadowed lexically. An expression has a type where it stands; a literal takes the
one that its context expects. What a call does is given from outside.
-/

namespace BlockForge.Reference

open Lowering (Config Env RecordInfo Signature Tables VectorOp castHint literalKind literalType evalConst)
open Source (BinaryOp Chain Expr FunctionDef Program Span Stmt UnaryOp)
open BlockForge.Types (Layout LitKind Ty)

/-- What an expression computes where a type is expected. -/
abbrev Eval := Option Ty → Sem Datum

/-! ### Operators -/

/-- The value of a folded constant of a type. -/
def constValue (t : Ty) : Lowering.Const → Value
  | .int n => .int n
  | .float bits => .float (roundAt t bits)

/-- A literal expression denotes its folded constant at the type that it takes. -/
def evalLiteral (env : Env) (e : Expr) (kind : LitKind) : Eval := fun expected =>
  let t := literalType env kind expected
  match evalConst env.layout t e with
  | .ok c => pure ⟨constValue t c, t⟩
  | .error _ => Sem.stuck

/-- An arithmetic operator on two values of one type, in the function of a name. -/
def applyArithmetic (l : Layout) (func : String) (op : BinaryOp) (t : Ty) : Value → Value → Sem Value
  | .int a, .int b =>
    match l.intShape? t with
    | some (bits, signed) =>
      match intArithmetic op signed bits a b with
      | some n => pure (.int n)
      | none => Sem.trap (.divisionByZero func)
    | none => Sem.stuck
  | .float a, .float b => pure (.float (floatArithmetic op t a b))
  | _, _ => Sem.stuck

def applyOrdering (op : BinaryOp) : Value → Value → Sem Value
  | .int a, .int b => pure (.bool (orderInt op a b))
  | .float a, .float b => pure (.bool (orderFloat op a b))
  | _, _ => Sem.stuck

def applyShift (l : Layout) (op : BinaryOp) (t : Ty) : Value → Value → Sem Value
  | .int a, .int b =>
    match l.intShape? t with
    | some (bits, signed) => pure (.int (shiftInt op signed bits a b))
    | none => Sem.stuck
  | _, _ => Sem.stuck

def applyBitwise (l : Layout) (op : BinaryOp) (t : Ty) : Value → Value → Sem Value
  | .int a, .int b =>
    match l.intShape? t with
    | some (bits, signed) => pure (.int (bitwiseInt op signed bits a b))
    | none => Sem.stuck
  | .bool a, .bool b => pure (.bool (bitwiseBool op a b))
  | _, _ => Sem.stuck

/-- A binary operator that needs both operands. -/
def applyBinary (l : Layout) (func : String) (op : BinaryOp) (a b : Datum) : Sem Datum := do
  if op.isArithmetic then return ⟨← applyArithmetic l func op a.type a.value b.value, a.type⟩
  else if op.isOrdering then return ⟨← applyOrdering op a.value b.value, .bool⟩
  else if op.isComparison then
    let same ← sameValue a.value b.value
    return ⟨.bool (same == (op == .eq)), .bool⟩
  else if op.isShift then return ⟨← applyShift l op a.type a.value b.value, a.type⟩
  else return ⟨← applyBitwise l op a.type a.value b.value, a.type⟩

def applyUnary (l : Layout) (op : UnaryOp) (a : Datum) : Sem Datum :=
  match op, a.value with
  | .plus, v => pure ⟨v, a.type⟩
  | .neg, .float bits => pure ⟨.float (Binary64.neg bits), a.type⟩
  | .neg, .int n =>
    match l.intShape? a.type with
    | some (bits, signed) => pure ⟨.int (wrapInt signed bits (-n)), a.type⟩
    | none => Sem.stuck
  | .not, .bool b => pure ⟨.bool !b, a.type⟩
  | .bitNot, .int n =>
    match l.intShape? a.type with
    | some (bits, signed) => pure ⟨.int (wrapInt signed bits (-n - 1)), a.type⟩
    | none => Sem.stuck
  | _, _ => Sem.stuck

/-- A truth value. -/
def asBool (a : Datum) : Sem Bool :=
  match a.value with
  | .bool b => pure b
  | _ => Sem.stuck

/-- `and` and `or`: the right operand counts only if the left one does not decide. -/
def evalLogical (op : BinaryOp) (l r : Eval) : Sem Datum := do
  let a ← l (some .bool)
  let t ← asBool a
  if t = (op == .and) then r (some .bool) else pure ⟨.bool t, .bool⟩

/-- Both operands; a lone literal takes the type of the other one. -/
def evalBoth (left right : Expr) (l r : Eval) : Sem (Datum × Datum) := do
  match literalKind left, literalKind right with
  | some a, some b =>
    match a.unify? b with
    | some kind => do
      let x ← l (some kind.defaultType)
      let y ← r (some kind.defaultType)
      pure (x, y)
    | none => Sem.stuck
  | some _, none => do
    let y ← r none
    let x ← l (some y.type)
    pure (x, y)
  | none, some _ => do
    let x ← l none
    let y ← r (some x.type)
    pure (x, y)
  | none, none => do
    let x ← l none
    let y ← r none
    pure (x, y)

/-- What the comparison of two float literals folds to. -/
def floatComparison? (env : Env) (op : BinaryOp) (left right : Expr) : Option Bool := do
  let kind ← (← literalKind left).unify? (← literalKind right)
  match evalConst env.layout kind.defaultType left, evalConst env.layout kind.defaultType right with
  | .ok (.float a), .ok (.float b) => some (Lowering.foldCompare op (.float a) (.float b))
  | _, _ => none

/-- The language leaves open whether a comparison of float literals is folded. -/
def evalBinary (env : Env) (func : String) (op : BinaryOp) (left right : Expr) (evalLeft evalRight : Eval) :
    Sem Datum := do
  if op.isLogical then evalLogical op evalLeft evalRight
  else
    let compute := do
      let (a, b) ← evalBoth left right evalLeft evalRight
      applyBinary env.layout func op a b
    match if op.isComparison then floatComparison? env op left right else none with
    | some q => if ← Sem.ask then pure ⟨.bool q, .bool⟩ else compute
    | none => compute

def evalCast (env : Env) (e : Expr) (eval : Eval) (target : Source.TypeExpr) : Sem Datum := do
  match env.tables.resolve target with
  | .error _ => Sem.stuck
  | .ok t =>
    let a ← eval (castHint env e t)
    match convertTo env.layout a.type t a.value with
    | some v => pure ⟨v, t⟩
    | none => Sem.stuck

/-! ### Calls, records and vectors -/

/-- What calls a function or method of the program: its symbol, and the arguments. -/
abbrev Caller := String → List Value → Sem Value

/-- Arguments at the types of their parameters. -/
def evalArgs : List (Eval × Ty) → Sem (List Value)
  | [] => pure []
  | (arg, t) :: rest => do
    let a ← arg (some t)
    let values ← evalArgs rest
    pure (a.value :: values)

def evalCall (env : Env) (call : Caller) (symbol : String) (first : List Value) (args : List Eval) :
    Sem Datum := do
  match env.tables.function? symbol with
  | none => Sem.stuck
  | some sig =>
    let values ← evalArgs (args.zip sig.params)
    let v ← call symbol (first ++ values)
    pure ⟨v, sig.ret⟩

/-- An index, brought to the width of an address by its own signedness. -/
def evalIndex (index : Eval) : Sem Nat := do
  let a ← index (some .usize)
  match a.value with
  | .int n => pure (intBits 64 n)
  | _ => Sem.stuck

/-- A value that is kept in a place of the type. -/
def evalKept (value : Eval) (t : Ty) : Sem Value := do
  let a ← value (some t)
  pure (keptAs t a.value)

def evalVectorOp (l : Layout) (elem : Ty) (v : Value) (op : VectorOp) (args : List Eval) : Sem Datum := do
  match op, args with
  | .size, [] => return ⟨← sizeOf v, .usize⟩
  | .capacity, [] => return ⟨← capacityOf v, .usize⟩
  | .get, [i] => return ⟨← getAt v (← evalIndex i), elem⟩
  | .set, [i, x] => do
    let i ← evalIndex i
    let x ← evalKept x elem
    setAt v i x
    pure ⟨.unit, .unit⟩
  | .add, [x] => do
    let x ← evalKept x elem
    append l v x
    pure ⟨.unit, .unit⟩
  | .insert, [i, x] => do
    let i ← evalIndex i
    let x ← evalKept x elem
    insertAt l v i x
    pure ⟨.unit, .unit⟩
  | .remove, [i] => return ⟨← removeAt v (← evalIndex i), elem⟩
  | _, _ => Sem.stuck

def evalMethod (env : Env) (call : Caller) (recv : Datum) (method : String) (args : List Eval) :
    Sem Datum :=
  match recv.type.element? with
  | some elem =>
    match VectorOp.ofName? method with
    | some op => evalVectorOp env.layout elem recv.value op args
    | none => Sem.stuck
  | none =>
    match env.tables.method? recv.type method with
    | some symbol => evalCall env call symbol [recv.value] args
    | none => Sem.stuck

/-- The values of initialisers in source order, by the names of their fields. -/
def evalInits (info : RecordInfo) : List (String × Eval) → Sem (List (String × Value))
  | [] => pure []
  | (name, init) :: rest => do
    match info.field? name with
    | none => Sem.stuck
    | some (_, t) =>
      let x ← evalKept init t
      let fields ← evalInits info rest
      pure ((name, x) :: fields)

/-- The bytes of a record. -/
def recordSize (l : Layout) (info : RecordInfo) : Nat :=
  recordBytes (info.fields.map fun f => cellSize l f.2)

def evalRecord (env : Env) (record : String) (inits : List (String × Eval)) : Sem Datum := do
  match env.tables.record? record with
  | none => Sem.stuck
  | some info =>
    let fields ← evalInits info inits
    Sem.demandBytes (recordSize env.layout info)
    let id ← Sem.create (.record record fields)
    pure ⟨.object id, .record record⟩

def evalField (env : Env) (recv : Datum) (name : String) : Sem Datum := do
  match env.tables.field? recv.type name with
  | some (_, _, t) => return ⟨← readField recv.value name, t⟩
  | none => Sem.stuck

/-! ### Variables -/

/-- The variables in scope, innermost block first. -/
abbrev Locals := List (List (String × Datum))

namespace Locals

def lookup? (ρ : Locals) (name : String) : Option Datum := ρ.findSome? fun block => block.lookup name

/-- Adds a variable to the innermost block. -/
def declare (ρ : Locals) (name : String) (d : Datum) : Locals :=
  match ρ with
  | [] => [[(name, d)]]
  | block :: rest => ((name, d) :: block) :: rest

/-- Replaces the value of the first variable of a name. -/
def assignIn (name : String) (v : Value) : List (String × Datum) → List (String × Datum)
  | [] => []
  | (n, d) :: rest => if n = name then (n, { d with value := v }) :: rest else (n, d) :: assignIn name v rest

/-- Replaces the value of the innermost variable of a name. -/
def assign (name : String) (v : Value) : Locals → Locals
  | [] => []
  | block :: rest =>
    if (block.lookup name).isSome then assignIn name v block :: rest else block :: assign name v rest

end Locals

/-! ### Expressions -/

section

variable (env : Env) (call : Caller) (func : String) (ρ : Locals)

mutual

/-- What an expression computes. -/
def eval : Expr → Eval
  | .int s v, expected => evalLiteral env (.int s v) (.int v.toNat) expected
  | .float s bits, expected => evalLiteral env (.float s bits) .float expected
  | .bool _ b, _ => pure ⟨.bool b, .bool⟩
  | .char _ c, _ => pure ⟨.int c.toNat, .char⟩
  | .str _ text, _ => pure ⟨.text text, .string⟩
  | .unit _, _ => pure ⟨.unit, .unit⟩
  | .null _, _ => pure ⟨.null, .null⟩
  | .ident _ name, _ =>
    match ρ.lookup? name with
    | some d => pure d
    | none => Sem.stuck
  | .unary s op e, expected =>
    match literalKind (.unary s op e) with
    | some kind => evalLiteral env (.unary s op e) kind expected
    | none => do
      let a ← eval e (if op = .not then some .bool else expected)
      applyUnary env.layout op a
  | .binary s op l r, expected =>
    match literalKind (.binary s op l r) with
    | some kind => evalLiteral env (.binary s op l r) kind expected
    | none => evalBinary env func op l r (eval l) (eval r)
  | .cast _ e t, _ => evalCast env e (eval e) t
  | .call _ callee args, _ => evalCall env call callee [] (evalAll args)
  | .methodCall _ r method args, _ => do
    let recv ← eval r none
    evalMethod env call recv method (evalAll args)
  | .field _ r name, _ => do
    let recv ← eval r none
    evalField env recv name
  | .index _ r i, _ => do
    let recv ← eval r none
    match recv.type.element? with
    | some elem =>
      let n ← evalIndex (eval i)
      return ⟨← getAt recv.value n, elem⟩
    | none => Sem.stuck
  | .record _ name inits, _ => evalRecord env name (evalFields inits)
  | .vectorNew _ t, _ => do
    match env.tables.resolve t with
    | .ok elem => return ⟨← newVector env.layout elem env.config.initialCapacity.toNat, .vector elem⟩
    | .error _ => Sem.stuck
termination_by structural e => e

def evalAll : List Expr → List Eval
  | [] => []
  | e :: rest => eval e :: evalAll rest
termination_by structural es => es

def evalFields : List (String × Expr) → List (String × Eval)
  | [] => []
  | (name, e) :: rest => (name, eval e) :: evalFields rest
termination_by structural es => es

end

end

end BlockForge.Reference
