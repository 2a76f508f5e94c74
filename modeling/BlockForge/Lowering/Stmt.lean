import BlockForge.Lowering.Expr
import BlockForge.Lowering.Reach

/-!
# Statements

Statements emit into the current block and leave the position where the next one goes on. Bodies of
`if` and `while` and bare blocks have a scope of their own, and branch to where control joins only if
their end is live.
-/

namespace BlockForge.Lowering

open Ir (BlockId Emit ValueId)
open Source (Chain Expr Span Stmt TypeExpr)
open BlockForge.Types (Ty)

/-! ### Declarations and assignments -/

/-- The initial value of a variable without annotation; `null` alone has no usable type. -/
def lowerInferred (name : String) (init : Operand) : Attempt Typed := do
  let v ← init.lower none
  if v.ty = .null then
    Attempt.reject (Problem.nullNeedsReference init.span ("declaration of `" ++ name ++ "`"))
  else pure v

/-- Puts a value into a new slot, or poisons the name if there is none. -/
def bindValue (env : Env) (name : String) (v : Option Typed) (span : Span) : Lower Unit := do
  match v with
  | some v =>
    let slot ← Lower.emit (Emit.entryAlloca (env.ir v.ty) name)
    Lower.emit (Emit.store v.value slot)
    Lower.bind "variable" name (.slot slot v.ty) span
  | none => Lower.bind "variable" name .poisoned span

/-- `var name: declared = init` -/
def lowerVar (env : Env) (name : String) (declared : Option TypeExpr) (init : Operand)
    (span : Span) : Lower Unit := do
  match declared with
  | none =>
    let v ← (lowerInferred name init).run
    bindValue env name v span
  | some t =>
    match ← (Attempt.resolve env t span).run with
    | none =>
      init.visit
      bindValue env name none span
    | some target =>
      let v ← (init.lowerAs target ("declaration of `" ++ name ++ "`")).run
      bindValue env name v span

/-- `name = value`, where the name stands at `span`. -/
def lowerLocalAssign (name : String) (span : Span) (value : Operand) : Attempt Unit := do
  match (← get).scope.lookup? name with
  | some (.slot slot type) =>
    let v ← value.lowerAs type ("assignment to `" ++ name ++ "`")
    Lower.emit (Emit.store v.value slot)
  | some .poisoned => value.visit
  | none =>
    Lower.report (Diagnostic.unknownIdentifier span name)
    value.visit

/-- `target = value` -/
def lowerAssign (env : Env) (target : Expr) (value : Operand) (span : Span) : Attempt Unit :=
  match target with
  | .ident s name => lowerLocalAssign name s value
  | .field _ receiver name => lowerFieldAssign env (operand env receiver) name value span
  | .index _ receiver index =>
    lowerIndexAssign env (operand env receiver) (operand env index) value span
  | _ => do
    Lower.report (Problem.invalidAssignTarget target.span)
    value.visit

/-! ### Branches -/

/-- A condition. One that fails or is no `bool` counts as false, so that the blocks around it keep
their shape. -/
def lowerCondition (cond : Operand) (what : String) : Lower ValueId := do
  match ← (cond.lower (some .bool)).run with
  | some v =>
    if v.ty = .bool then pure v.value
    else
      Lower.report (Diagnostic.typeMismatch cond.span "bool" v.ty.render what)
      Lower.emit (Emit.constBool false)
  | none => Lower.emit (Emit.constBool false)

/-- Where an `if` goes when its condition is false. -/
def nextBlock (stop : BlockId) : Chain → Emit BlockId
  | .done => pure stop
  | .otherwise _ => Emit.appendBlock "if.else"
  | .clause .. => Emit.appendBlock "if.cond"

/-- Leaves the innermost loop by its end, or goes back to its test. -/
def lowerLoopExit (keyword : String) (exit : LoopTargets → BlockId) (span : Span) : Lower Unit := do
  match (← get).loops with
  | [] => Lower.report (Problem.outsideLoop span keyword)
  | targets :: _ => Lower.emit (Emit.br (exit targets))

/-! ### Return -/

def lowerReturn (env : Env) (value : Option Operand) (span : Span) : Lower Unit := do
  match value with
  | some o =>
    let context := "return value of `" ++ env.functionName ++ "`"
    match ← (o.lowerAs env.returnType context).run with
    | some v =>
      Lower.emit (if env.returnType.isUnit then Emit.retVoid else Emit.ret v.value)
    | none => Lower.emit Emit.unreachable
  | none =>
    if env.returnType.isUnit then Lower.emit Emit.retVoid
    else
      let context := "return of `" ++ env.functionName ++ "`"
      Lower.report (Diagnostic.typeMismatch span env.returnType.render "()" context)
      Lower.emit Emit.unreachable

/-! ### Statements and lists -/

/-- Reports the first statement of a run of dead ones. -/
def reportDead (span : Span) : Lower Unit := do
  if !(← get).deadReported then
    Lower.report (Problem.unreachableCode span)
    modify fun s => { s with deadReported := true }

mutual

/-- Lowers a statement at a live position. -/
def lowerStmt (env : Env) : Stmt → Lower Unit
  | .var s name declared init => lowerVar env name declared (operand env init) s
  | .assign s target value => do
    let _ ← (lowerAssign env target (operand env value) s).run
  | .expr _ e => (operand env e).visit
  | .cond _ chain => do
    let stop ← Lower.emit (Emit.appendBlock "if.end")
    lowerChain env stop chain
    Lower.emit (Emit.positionAt stop)
  | .loop _ cond body => do
    let test ← Lower.emit (Emit.appendBlock "while.cond")
    let start ← Lower.emit (Emit.appendBlock "while.body")
    let stop ← Lower.emit (Emit.appendBlock "while.end")
    Lower.emit (Emit.br test)
    Lower.emit (Emit.positionAt test)
    let c ← lowerCondition (operand env cond) "condition of `while`"
    Lower.emit (Emit.condBr c start stop)
    Lower.emit (Emit.positionAt start)
    modify fun s => { s with loops := ⟨test, stop⟩ :: s.loops }
    Lower.onScope Scope.push
    lowerStmts env body
    Lower.onScope Scope.pop
    modify fun s => { s with loops := s.loops.tail }
    Lower.branchIfLive test
    Lower.emit (Emit.positionAt stop)
  | .ret s value => lowerReturn env (value.map (operand env)) s
  | .brk s => lowerLoopExit "break" LoopTargets.stop s
  | .cont s => lowerLoopExit "continue" LoopTargets.test s
  | .block _ body => do
    Lower.onScope Scope.push
    lowerStmts env body
    Lower.onScope Scope.pop
termination_by structural s => s

/-- Lowers statements in order. Dead ones emit nothing, and the first of a run of them is reported. -/
def lowerStmts (env : Env) : List Stmt → Lower Unit
  | [] => pure ()
  | s :: rest => do
    if ← Lower.positionIsDead then
      reportDead s.span
      lowerStmts env rest
    else
      modify fun st => { st with deadReported := false }
      lowerStmt env s
      lowerStmts env rest
termination_by structural ss => ss

/-- Lowers what is left of an `if` chain whose branches join at `stop`. -/
def lowerChain (env : Env) (stop : BlockId) : Chain → Lower Unit
  | .done => pure ()
  | .otherwise body => do
    Lower.onScope Scope.push
    lowerStmts env body
    Lower.onScope Scope.pop
    Lower.branchIfLive stop
  | .clause cond body rest => do
    let c ← lowerCondition (operand env cond) "condition of `if`"
    let start ← Lower.emit (Emit.appendBlock "if.then")
    let next ← Lower.emit (nextBlock stop rest)
    Lower.emit (Emit.condBr c start next)
    Lower.emit (Emit.positionAt start)
    Lower.onScope Scope.push
    lowerStmts env body
    Lower.onScope Scope.pop
    Lower.branchIfLive stop
    if next ≠ stop then Lower.emit (Emit.positionAt next)
    lowerChain env stop rest
termination_by structural c => c

end

end BlockForge.Lowering
