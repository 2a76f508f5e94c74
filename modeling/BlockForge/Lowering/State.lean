import BlockForge.Ir.Layout
import BlockForge.Lowering.Allocator
import BlockForge.Lowering.Scope
import BlockForge.Lowering.Tables
import BlockForge.Types.Conversion

/-!
# Lowering one function

`Env` is what is fixed while a body is lowered, `State` what changes. An expression that fails to
lower has been reported (or is poisoned) and gives nothing; whoever needed it fails too, without a
report of its own, so one mistake gives one diagnostic.
-/

namespace BlockForge.Lowering

open Diagnostic (Diag Queue)
open Ir (BlockId Emit ValueId)
open Source (Expr Span TypeExpr)
open BlockForge.Types (Layout Ty)

/-- What is fixed while a body is lowered. -/
structure Env where
  config : Config
  tables : Tables
  allocator : Allocator
  returnType : Ty
  /-- The function's symbol, for messages. -/
  functionName : String

def Env.layout (env : Env) : Layout := env.config.layout

/-- The instruction-level type of a value. -/
def Env.ir (env : Env) (t : Ty) : Ir.Ty := env.layout.irType t

/-- Where the exits of a loop go: `continue` to the test, `break` to the end. -/
structure LoopTargets where
  test : BlockId
  stop : BlockId
  deriving Repr

/-- The reachable blocks as of a number of ended blocks. -/
structure ReachCache where
  terminators : Option Nat := none
  seen : Array Bool := #[]
  deriving Inhabited

/-- What changes while a body is lowered. -/
structure State where
  builder : Ir.Builder
  diags : Queue
  scope : Scope := {}
  loops : List LoopTargets := []
  /-- Whether the current run of dead statements has been reported. -/
  deadReported : Bool := false
  reach : ReachCache := {}

abbrev Lower := StateM State

/-- A lowering that may fail; what it did to the state stays either way. -/
structure Attempt (α : Type) where
  run : Lower (Option α)

namespace Attempt

/-- Fails without a report. -/
def fail {α : Type} : Attempt α := ⟨pure none⟩

/-- Goes on with a result, or fails without one. -/
def of {α : Type} (r : Option α) : Attempt α := ⟨pure r⟩

instance : Monad Attempt where
  pure a := ⟨pure (some a)⟩
  bind x f := ⟨do
    match ← x.run with
    | some a => (f a).run
    | none => pure none⟩

instance : MonadLift Lower Attempt := ⟨fun x => ⟨some <$> x⟩⟩

end Attempt

/-- A lowered expression: its value and its type. -/
structure Typed where
  value : ValueId
  ty : Ty
  deriving Repr

namespace Lower

/-- Runs an operation of the builder. -/
def emit {α : Type} (e : Emit α) : Lower α := fun ⟨builder, diags, scope, loops, dead, reach⟩ =>
  let (a, builder) := e builder
  (a, ⟨builder, diags, scope, loops, dead, reach⟩)

def report (d : Diag) : Lower Unit := modify fun s => { s with diags := (s.diags.add d).2 }

def onScope (f : Scope → Scope) : Lower Unit := modify fun s => { s with scope := f s.scope }

/-- The storage size of a value in bytes. -/
def storeSize (env : Env) (t : Ty) : Lower Nat := do
  return (← get).builder.module.sizeOf (env.ir t)

/-- Every `()` expression has this value. -/
def unit : Lower Typed := do
  let value ← emit (Emit.constInt .i8 0)
  pure ⟨value, .unit⟩

/-- Binds a name in the innermost scope, or reports that it is bound there. -/
def bind (what name : String) (b : Binding) (span : Span) : Lower Unit := do
  match (← get).scope.declare? name b with
  | some scope => modify fun s => { s with scope }
  | none => report (Problem.alreadyDefined span what name)

end Lower

namespace Attempt

/-- Reports a problem and fails. -/
def reject {α : Type} (d : Diag) : Attempt α := do
  Lower.report d
  fail

/-- The type that is written, reporting an unknown name. -/
def resolve (env : Env) (t : TypeExpr) (span : Span) : Attempt Ty :=
  match env.tables.resolve t with
  | .ok t => pure t
  | .error name => reject (Problem.unknownType span name)

/-- Checks that a value may be stored where `target` is expected. -/
def coerce (v : Typed) (target : Ty) (span : Span) (context : String) : Attempt Typed :=
  if Types.assignable v.ty target then pure ⟨v.value, target⟩
  else reject (Diagnostic.typeMismatch span target.render v.ty.render context)

end Attempt

/-- An expression with its lowering at an expected type. The expected type lets literals take it; it
is not a check. -/
structure Operand where
  expr : Expr
  lower : Option Ty → Attempt Typed

namespace Operand

def span (o : Operand) : Span := o.expr.span

/-- Lowers the expression for its diagnostics only. -/
def visit (o : Operand) : Lower Unit := do
  let _ ← (o.lower none).run

/-- Lowers the expression to a value of the given type. -/
def lowerAs (o : Operand) (target : Ty) (context : String) : Attempt Typed := do
  let v ← o.lower (some target)
  Attempt.coerce v target o.span context

end Operand

/-- Lowers expressions in order, for their diagnostics only. -/
def visitAll : List Operand → Lower Unit
  | [] => pure ()
  | o :: rest => do
    o.visit
    visitAll rest

end BlockForge.Lowering
