import BlockForge.Lowering.State
import BlockForge.Lowering.VectorCode

/-!
# Vectors

Construction, methods and indexing of vectors. An index may be of any integer type; it is brought to
pointer width by its own signedness, so a negative index is out of bounds.
-/

namespace BlockForge.Lowering

open Ir (Emit ValueId)
open Source (Span TypeExpr)
open BlockForge.Types (Ty)

/-- The methods of vectors. -/
inductive VectorOp where
  | size | capacity | get | set | add | insert | remove
  deriving DecidableEq, Repr

namespace VectorOp

def ofName? : String → Option VectorOp
  | "size" => some size
  | "capacity" => some capacity
  | "get" => some get
  | "set" => some set
  | "add" => some add
  | "insert" => some insert
  | "remove" => some remove
  | _ => none

def arity : VectorOp → Nat
  | size | capacity => 0
  | get | add | remove => 1
  | set | insert => 2

end VectorOp

/-- Buffers of references have to be scanned by the collector. -/
def bufferKind (elem : Ty) : AllocKind := if elem.isReference then .general else .noReferences

/-- What the operations on vectors of an element type depend on. -/
def vectorShape (env : Env) (elem : Ty) : Lower VectorShape := do
  let elemSize ← Lower.storeSize env elem
  pure ⟨env.tables.vector, env.ir elem, elemSize, bufferKind elem, env.allocator⟩

def lowerVectorNew (env : Env) (elem : TypeExpr) (span : Span) : Attempt Typed := do
  let elem ← Attempt.resolve env elem span
  let shape ← vectorShape env elem
  let descBytes := (← get).builder.module.sizeOf (.struct env.tables.vector)
  let desc ← Lower.emit (shape.new descBytes env.config.initialCapacity)
  pure ⟨desc, .vector elem⟩

/-- Lowers an index to pointer width. -/
def lowerIndex (o : Operand) : Attempt ValueId := do
  let v ← o.lower (some .usize)
  if v.ty.isInteger then
    let t := (← get).builder.module.ptrInt
    Lower.emit (Emit.intResize v.value t v.ty.isSignedInt "idx")
  else Attempt.reject (Diagnostic.typeMismatch o.span "integer" v.ty.render "vector index")

/-- Lowers a value that is stored into a vector. -/
def lowerElement (o : Operand) (elem : Ty) (context : String) : Attempt ValueId := do
  let v ← o.lowerAs elem context
  pure v.value

/-- Lowers index and value, both even if the index fails. -/
def lowerIndexAndElement (index value : Operand) (elem : Ty) (context : String) :
    Attempt (ValueId × ValueId) := do
  let i ← (lowerIndex index).run
  let v ← (lowerElement value elem context).run
  let i ← Attempt.of i
  let v ← Attempt.of v
  pure (i, v)

/-- A method of a vector on arguments of the right number. -/
def lowerVectorOp (env : Env) (op : VectorOp) (desc : ValueId) (elem : Ty) (args : List Operand) :
    Attempt Typed := do
  let shape ← vectorShape env elem
  match op, args with
  | .size, _ =>
    let value ← Lower.emit (shape.loadSize desc)
    pure ⟨value, .usize⟩
  | .capacity, _ =>
    let value ← Lower.emit (shape.loadCapacity desc)
    pure ⟨value, .usize⟩
  | .get, [index] =>
    let i ← lowerIndex index
    let value ← Lower.emit (shape.getAt desc i)
    pure ⟨value, elem⟩
  | .set, [index, value] =>
    let (i, v) ← lowerIndexAndElement index value elem "argument 2 of `set`"
    Lower.emit (shape.setAt desc i v)
    Lower.unit
  | .add, [value] =>
    let v ← lowerElement value elem "argument 1 of `add`"
    Lower.emit (shape.append desc v)
    Lower.unit
  | .insert, [index, value] =>
    let (i, v) ← lowerIndexAndElement index value elem "argument 2 of `insert`"
    Lower.emit (shape.insertAt desc i v)
    Lower.unit
  | .remove, [index] =>
    let i ← lowerIndex index
    let value ← Lower.emit (shape.removeAt desc i)
    pure ⟨value, elem⟩
  | _, _ => Attempt.fail

def lowerVectorMethod (env : Env) (receiver : Typed) (elem : Ty) (method : String)
    (args : List Operand) (span : Span) : Attempt Typed := do
  match VectorOp.ofName? method with
  | none =>
    Lower.report (Problem.unknownMethod span method receiver.ty.render)
    visitAll args
    Attempt.fail
  | some op =>
    if args.length ≠ op.arity then
      Lower.report (Problem.argCount span "method" method op.arity args.length)
      visitAll args
      Attempt.fail
    else lowerVectorOp env op receiver.value elem args

/-- `receiver[index]`, the same as `receiver.get(index)`. -/
def lowerIndexing (env : Env) (receiver index : Operand) (span : Span) : Attempt Typed := do
  match ← (receiver.lower none).run with
  | none =>
    index.visit
    Attempt.fail
  | some recv =>
    match recv.ty.element? with
    | none =>
      Lower.report (Problem.notIndexable span recv.ty.render)
      index.visit
      Attempt.fail
    | some elem =>
      let i ← lowerIndex index
      let shape ← vectorShape env elem
      let value ← Lower.emit (shape.getAt recv.value i)
      pure ⟨value, elem⟩

/-- `receiver[index] = value`, the same as `receiver.set(index, value)`. -/
def lowerIndexAssign (env : Env) (receiver index value : Operand) (span : Span) :
    Attempt Unit := do
  match ← (receiver.lower none).run with
  | none =>
    visitAll [index, value]
    Attempt.fail
  | some recv =>
    match recv.ty.element? with
    | none =>
      Lower.report (Problem.notIndexable span recv.ty.render)
      visitAll [index, value]
      Attempt.fail
    | some elem =>
      let (i, v) ← lowerIndexAndElement index value elem "assignment to vector element"
      let shape ← vectorShape env elem
      Lower.emit (shape.setAt recv.value i v)

end BlockForge.Lowering
