import BlockForge.Lowering.Vector

/-!
# Calls

Arguments are evaluated left to right, each at the type of its parameter. All of them are lowered
even if one fails, or if the call cannot be made, so that every mistake in them is reported.
-/

namespace BlockForge.Lowering

open Ir (Emit ValueId)
open Source (Span)
open BlockForge.Types (Ty)

/-- Lowers arguments against their parameters; `position` counts from one. -/
def lowerArgs (callee : String) :
    (position : Nat) → List (Operand × Ty) → Lower (Option (List ValueId))
  | _, [] => pure (some [])
  | position, (arg, param) :: rest => do
    let context := "argument " ++ toString position ++ " of `" ++ callee ++ "`"
    let v ← (arg.lowerAs param context).run
    let vs ← lowerArgs callee (position + 1) rest
    pure (v.bind fun v => vs.map (v.value :: ·))

/-- Emits a call; the result is named after the callee. -/
def emitCall (sig : Signature) (name : String) (args : List ValueId) : Lower Typed := do
  match ← Lower.emit (Emit.call sig.func args name) with
  | some value => pure ⟨value, sig.ret⟩
  | none => Lower.unit

/-- Reports a call that cannot be made, lowers its arguments, and fails. -/
def abandonCall (d : Option Diagnostic.Diag) (args : List Operand) : Attempt Typed := do
  match d with
  | some d => Lower.report d
  | none => pure ()
  visitAll args
  Attempt.fail

/-- Calls a known function: `what` and `name` are how messages call it, `symbol` names the result and
`first` are the arguments before those written. -/
def lowerCallTo (sig : Signature) (what name symbol : String) (first : List ValueId)
    (args : List Operand) (span : Span) : Attempt Typed := do
  if args.length ≠ sig.params.length then
    abandonCall (some (Problem.argCount span what name sig.params.length args.length)) args
  else
    let values ← lowerArgs name 1 (args.zip sig.params)
    let values ← Attempt.of values
    emitCall sig symbol (first ++ values)

/-- `callee(args)`. Methods are not called this way. -/
def lowerCall (env : Env) (callee : String) (args : List Operand) (span : Span) : Attempt Typed :=
  match (env.tables.function? callee).filter fun sig => sig.receiver.isNone with
  | some sig => lowerCallTo sig "function" callee callee [] args span
  | none =>
    if env.tables.isPoisoned callee then abandonCall none args
    else abandonCall (some (Diagnostic.unknownIdentifier span callee)) args

/-- A method of a type other than a vector. -/
def lowerUserMethod (env : Env) (recv : Typed) (method : String) (args : List Operand)
    (span : Span) : Attempt Typed :=
  match env.tables.method? recv.ty method with
  | none => abandonCall (some (Problem.unknownMethod span method recv.ty.render)) args
  | some symbol =>
    match env.tables.function? symbol with
    | none => abandonCall none args
    | some sig => lowerCallTo sig "method" method symbol [recv.value] args span

/-- `receiver.method(args)`. -/
def lowerMethodCall (env : Env) (receiver : Operand) (method : String) (args : List Operand)
    (span : Span) : Attempt Typed := do
  match ← (receiver.lower none).run with
  | none => abandonCall none args
  | some recv =>
    match recv.ty with
    | .vector elem => lowerVectorMethod env recv elem method args span
    | _ => lowerUserMethod env recv method args span

end BlockForge.Lowering
