import BlockForge.Ir.Graph

/-!
# Structural verification

Checks that every block ends, that operands and branch targets exist, that merges lead their block
and have one edge per predecessor, that returns match the return type, and that calls pass as many
arguments as are declared. It checks neither operand types nor dominance.
-/

namespace BlockForge.Ir

/-- A broken rule in the function `func`. -/
inductive VerifyError where
  | missingTerminator (func : String) (block : BlockId)
  | badTarget (func : String) (block target : BlockId)
  | badValue (func : String) (block : BlockId) (value : ValueId)
  | misplacedPhi (func : String) (block : BlockId)
  | phiPredecessors (func : String) (block : BlockId) (incoming preds : List BlockId)
  | returnMismatch (func : String) (block : BlockId)
  | callArity (func callee : String) (expected found : Nat)
  deriving DecidableEq, Repr

def VerifyError.message : VerifyError → String
  | missingTerminator f b => "`" ++ f ++ "`: block " ++ b.render ++ " has no terminator"
  | badTarget f b t =>
    "`" ++ f ++ "`: block " ++ b.render ++ " branches to missing block " ++ t.render
  | badValue f b v => "`" ++ f ++ "`: block " ++ b.render ++ " uses undefined value " ++ v.render
  | misplacedPhi f b => "`" ++ f ++ "`: phi in block " ++ b.render ++ " is not at the block start"
  | phiPredecessors f b incoming preds =>
    "`" ++ f ++ "`: phi in block " ++ b.render ++ " has incoming " ++ Id.renderList incoming
      ++ ", predecessors are " ++ Id.renderList preds
  | returnMismatch f b =>
    "`" ++ f ++ "`: return in block " ++ b.render ++ " does not match return type"
  | callArity f callee expected found =>
    "`" ++ f ++ "`: call to `" ++ callee ++ "` passes " ++ toString found ++ " arguments, expected "
      ++ toString expected

/-- Blocks in increasing order. -/
def sortBlocks (bs : List BlockId) : List BlockId := bs.mergeSort fun a b => a.index ≤ b.index

namespace Function

/-- Which values are the result of some instruction. -/
def definedSet (f : Function) : Array Bool :=
  f.insts.foldl (fun seen i =>
      match i.result with
      | some r => seen.setIfInBounds r.index true
      | none => seen)
    (Array.replicate f.values.size false)

/-- Whether a value may be used: it exists, and if it is a result, some instruction gives it. -/
def isUsable (f : Function) (defined : Array Bool) (v : ValueId) : Bool :=
  match f.value? v with
  | some ⟨_, .inst _, _⟩ => defined.getD v.index false
  | some _ => true
  | none => false

end Function

/-- The name and parameter count of what a call runs. -/
def Module.calleeArity (m : Module) : Callee → String × Nat
  | .func id =>
    let f := (m.function? id).getD default
    (f.name, f.params.length)
  | .host id =>
    let h := (m.host? id).getD default
    (h.name, h.params.length)

/-- The facts about a function that its checks share. -/
structure VerifyContext where
  module : Module
  func : Function
  preds : Array (List BlockId)
  defined : Array Bool

namespace VerifyContext

variable (c : VerifyContext)

def usable (v : ValueId) : Bool := c.func.isUsable c.defined v

def checkOperands (block : BlockId) (vs : List ValueId) : List VerifyError :=
  (vs.filter fun v => !c.usable v).map fun v => .badValue c.func.name block v

def checkPhi (block : BlockId) (incoming : List (ValueId × BlockId)) : List VerifyError :=
  let source := sortBlocks (incoming.map (·.2))
  let expected := sortBlocks (c.preds.getD block.index [])
  if source = expected then [] else [.phiPredecessors c.func.name block source expected]

def checkCall (callee : Callee) (args : List ValueId) : List VerifyError :=
  let (name, expected) := c.module.calleeArity callee
  if expected = args.length then [] else [.callArity c.func.name name expected args.length]

/-- Checks instructions in order; `late` tells whether an instruction that is no merge came before. -/
def checkInsts (block : BlockId) : (late : Bool) → List Inst → List VerifyError
  | _, [] => []
  | late, i :: rest =>
    let own := match i.kind with
      | .phi _ incoming =>
        (if late then [.misplacedPhi c.func.name block] else []) ++ c.checkPhi block incoming
      | .call callee args _ => c.checkCall callee args
      | _ => []
    c.checkOperands block i.kind.operands ++ own ++ checkInsts block (late || !i.kind.isPhi) rest

def checkTargets (block : BlockId) (t : Terminator) : List VerifyError :=
  (t.successors.filter fun s => c.func.blocks.size ≤ s.index).map fun s =>
    .badTarget c.func.name block s

/-- Whether a returned value fits the return type. -/
def returnFits : Option ValueId → Bool
  | none => c.func.ret == .void
  | some v => c.usable v && c.func.valueType v == c.func.ret

def checkTerminator (block : BlockId) : Option Terminator → List VerifyError
  | none => [.missingTerminator c.func.name block]
  | some t =>
    c.checkTargets block t ++
      match t with
      | .condBr cond _ _ => c.checkOperands block [cond]
      | .ret v => if c.returnFits v then [] else [.returnMismatch c.func.name block]
      | _ => []

def checkBlock (b : Block) (id : BlockId) : List VerifyError :=
  c.checkInsts id false b.insts.toList ++ c.checkTerminator id b.terminator

end VerifyContext

/-- The broken rules of a function; a declaration breaks none. -/
def Function.verify (m : Module) (f : Function) : List VerifyError :=
  if f.isDeclaration then []
  else
    let c : VerifyContext := ⟨m, f, f.predecessors, f.definedSet⟩
    f.blocks.toList.zipIdx.flatMap fun (b, i) => c.checkBlock b ⟨i⟩

/-- The broken rules of all functions. -/
def Module.verify (m : Module) : List VerifyError := m.functions.toList.flatMap (·.verify m)

end BlockForge.Ir
