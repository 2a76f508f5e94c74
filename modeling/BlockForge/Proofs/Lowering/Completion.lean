import BlockForge.Lowering.Program

/-!
# Completion

Whether control can get past a statement, read off its structure: this is the language's own rule for
unreachable statements and missing returns. `followStmts` lowers by this rule. It leaves out what follows
a statement that cannot complete, and branches to where control joins from the bodies that can.
-/

namespace BlockForge.Source

/-- Whether nothing is left of a chain. -/
def Chain.isDone : Chain → Bool
  | .done => true
  | _ => false

mutual

/-- Whether control can get past a statement. A loop exit outside of a loop is an error and does nothing;
nothing leads past an `if` that has neither a clause nor an `else`. -/
def Stmt.completes (inLoop : Bool) : Stmt → Bool
  | .var .. | .assign .. | .expr .. | .loop .. => true
  | .ret .. => false
  | .brk _ | .cont _ => !inLoop
  | .block _ body => completesAll inLoop body
  | .cond _ chain => !chain.isDone && chain.completes inLoop
termination_by structural s => s

/-- A list completes if each of its statements does. -/
def completesAll (inLoop : Bool) : List Stmt → Bool
  | [] => true
  | s :: rest => s.completes inLoop && completesAll inLoop rest
termination_by structural ss => ss

/-- An `if` completes if it has no `else`, or one of its bodies completes. -/
def Chain.completes (inLoop : Bool) : Chain → Bool
  | .done => true
  | .otherwise body => completesAll inLoop body
  | .clause _ body rest => completesAll inLoop body || rest.completes inLoop
termination_by structural c => c

end

mutual

/-- Every `if` has a clause or an `else`. -/
def Stmt.isProper : Stmt → Bool
  | .cond _ chain => !chain.isDone && chain.isProper
  | .loop _ _ body => properAll body
  | .block _ body => properAll body
  | _ => true
termination_by structural s => s

def properAll : List Stmt → Bool
  | [] => true
  | s :: rest => s.isProper && properAll rest
termination_by structural ss => ss

def Chain.isProper : Chain → Bool
  | .done => true
  | .otherwise body => properAll body
  | .clause _ body rest => properAll body && rest.isProper
termination_by structural c => c

end

/-! ### Visits -/

/-- A statement that is met, and whether it is skipped. -/
structure Visit where
  span : Span
  skipped : Bool
  deriving DecidableEq, Repr

mutual

/-- The statements met inside of a statement that is not skipped. -/
def Stmt.visits (inLoop : Bool) : Stmt → List Visit
  | .loop _ _ body => visitsAll true true body
  | .block _ body => visitsAll inLoop true body
  | .cond _ chain => chain.visits inLoop
  | _ => []
termination_by structural s => s

/-- The statements met in a list, in order. One is skipped exactly if one before it in the list cannot
complete, and nothing is met inside of one that is skipped. -/
def visitsAll (inLoop : Bool) : (live : Bool) → List Stmt → List Visit
  | _, [] => []
  | true, s :: rest => ⟨s.span, false⟩ :: s.visits inLoop ++ visitsAll inLoop (s.completes inLoop) rest
  | false, s :: rest => ⟨s.span, true⟩ :: visitsAll inLoop false rest
termination_by structural _ ss => ss

def Chain.visits (inLoop : Bool) : Chain → List Visit
  | .done => []
  | .otherwise body => visitsAll inLoop true body
  | .clause _ body rest => visitsAll inLoop true body ++ rest.visits inLoop
termination_by structural c => c

end

/-- The first statement of each maximal run of skipped ones; `running` says whether such a run goes on from
before. -/
def runStarts : (running : Bool) → List Visit → List Span
  | _, [] => []
  | _, ⟨_, false⟩ :: rest => runStarts false rest
  | running, ⟨span, true⟩ :: rest => (if running then [] else [span]) ++ runStarts true rest

/-- Whether a run of skipped statements goes on after some visits. -/
def runsOn (running : Bool) (visits : List Visit) : Bool :=
  (visits.getLast?.map (·.skipped)).getD running

end BlockForge.Source

namespace BlockForge.Lowering

open Ir (BlockId Emit)
open Source (Chain FunctionDef Span Stmt completesAll)

/-! ### Lowering by structure -/

/-- Branches to a block, if control gets there. -/
def Lower.branchIf (live : Bool) (target : BlockId) : Lower Unit :=
  if live then Lower.emit (Emit.br target) else pure ()

mutual

/-- Lowers a statement; bodies are lowered and joined by their structure. -/
def followStmt (env : Env) (inLoop : Bool) : Stmt → Lower Unit
  | .var s name declared init => lowerVar env name declared (operand env init) s
  | .assign s target value => do
    let _ ← (lowerAssign env target (operand env value) s).run
  | .expr _ e => (operand env e).visit
  | .cond _ chain => do
    let stop ← Lower.emit (Emit.appendBlock "if.end")
    followChain env inLoop stop chain
    Lower.emit (Emit.positionAt stop)
  | .loop _ cond body => do
    let test ← Lower.emit (Emit.appendBlock "while.cond")
    let start ← Lower.emit (Emit.appendBlock "while.body")
    let stop ← Lower.emit (Emit.appendBlock "while.end")
    Lower.emit (Emit.br test)
    Lower.emit (Emit.positionAt test)
    let c ← lowerCondition (operand env cond) "condition of `while`"
    Lower.emit (Emit.condBr c start stop)
    Lower.emit (Emit.positionAt start)
    modify fun s => { s with loops := ⟨test, stop⟩ :: s.loops }
    Lower.onScope Scope.push
    followStmts env true true body
    Lower.onScope Scope.pop
    modify fun s => { s with loops := s.loops.tail }
    Lower.branchIf (completesAll true body) test
    Lower.emit (Emit.positionAt stop)
  | .ret s value => lowerReturn env (value.map (operand env)) s
  | .brk s => lowerLoopExit "break" LoopTargets.stop s
  | .cont s => lowerLoopExit "continue" LoopTargets.test s
  | .block _ body => do
    Lower.onScope Scope.push
    followStmts env inLoop true body
    Lower.onScope Scope.pop
termination_by structural s => s

/-- Lowers statements in order, up to one that cannot complete. Those after it are skipped: nothing but the
first of a run of them is reported. -/
def followStmts (env : Env) (inLoop : Bool) : (live : Bool) → List Stmt → Lower Unit
  | _, [] => pure ()
  | true, s :: rest => do
    modify fun st => { st with deadReported := false }
    followStmt env inLoop s
    followStmts env inLoop (s.completes inLoop) rest
  | false, s :: rest => do
    reportDead s.span
    followStmts env inLoop false rest
termination_by structural _ ss => ss

/-- Lowers what is left of an `if` chain whose branches join at `stop`. -/
def followChain (env : Env) (inLoop : Bool) (stop : BlockId) : Chain → Lower Unit
  | .done => pure ()
  | .otherwise body => do
    Lower.onScope Scope.push
    followStmts env inLoop true body
    Lower.onScope Scope.pop
    Lower.branchIf (completesAll inLoop body) stop
  | .clause cond body rest => do
    let c ← lowerCondition (operand env cond) "condition of `if`"
    let start ← Lower.emit (Emit.appendBlock "if.then")
    let next ← Lower.emit (nextBlock stop rest)
    Lower.emit (Emit.condBr c start next)
    Lower.emit (Emit.positionAt start)
    Lower.onScope Scope.push
    followStmts env inLoop true body
    Lower.onScope Scope.pop
    Lower.branchIf (completesAll inLoop body) stop
    if next ≠ stop then Lower.emit (Emit.positionAt next)
    followChain env inLoop stop rest
termination_by structural c => c

end

/-- Ends the body: one that completes returns `()`, or is reported if the function returns a value. -/
def followEnd (env : Env) (d : FunctionDef) : Lower Unit := do
  if completesAll false d.body then
    if env.returnType.isUnit then Lower.emit Emit.retVoid
    else
      Lower.report (Problem.missingReturn d.span env.functionName env.returnType.render)
      Lower.emit Emit.unreachable
  let blocks := (List.range (← get).builder.function.blocks.size).map Ir.Id.mk
  Lower.emit (Lower.sealBlocks blocks)

/-- Lowers the body of a declared function. -/
def followFunction (env : Env) (d : FunctionDef) (sig : Signature) : Lower Unit := do
  let entry ← Lower.emit (Emit.appendBlock "entry")
  Lower.emit (Emit.positionAt entry)
  Lower.onScope Scope.push
  bindParams env 0 (parameters d sig)
  followStmts env false true d.body
  followEnd env d
  Lower.onScope Scope.pop

end BlockForge.Lowering
