import BlockForge.Ir.Layout
import BlockForge.Machine.Arith
import BlockForge.Machine.Host

/-!
# Machine state

A store keeps what outlives a call (memory, the addresses of constant texts, call counts), and
during a run the frame in control with the frames that wait for it. Operations on the state either
give a result or a fault; a fault keeps the state, so that the frames can be taken down.
-/

namespace BlockForge.Machine

open Ir (Block BlockId FuncId Function GlobalId Module ValueId)

/-- What outlives a call. -/
structure Store where
  memory : Memory := {}
  /-- The address of each constant text that has been used. -/
  globals : Array (Option UInt64)
  /-- How often each function was entered. -/
  calls : Array Nat
  deriving Inhabited

/-- A function in execution. -/
structure Frame where
  func : Function
  args : Array Val
  /-- The results so far, by value number. -/
  regs : Array (Option Val)
  /-- The addresses of the stack slots, latest first. -/
  slots : List UInt64 := []
  block : BlockId := Ir.Id.entry
  code : Block := default
  /-- The position of the next instruction of `code`. -/
  next : Nat := 0
  /-- How many frames there are up to this one. -/
  depth : Nat
  deriving Inhabited

/-- A run in progress: the frame in control, and its callers, innermost first. -/
structure State where
  store : Store
  frame : Frame
  callers : List Frame
  deriving Inhabited

/-- An operation on a run. -/
abbrev Exec := EStateM Fault State

/-- The store before any call. -/
def Store.fresh (m : Module) : Store where
  globals := Array.replicate m.globals.size none
  calls := Array.replicate m.functions.size 0

namespace Exec

def frame : Exec Frame := do return (← get).frame

def memory : Exec Memory := do return (← get).store.memory

/-- Runs an operation of the memory. -/
def onMemory {α : Type} (op : Mem α) : Exec α := fun ⟨⟨memory, globals, calls⟩, frame, callers⟩ =>
  match op memory with
  | .ok a memory => .ok a ⟨⟨memory, globals, calls⟩, frame, callers⟩
  | .error e memory => .error e ⟨⟨memory, globals, calls⟩, frame, callers⟩

/-- Defines a result in the frame. -/
def setReg (result : ValueId) (v : Val) : Exec Unit := modify fun s =>
  { s with frame := { s.frame with regs := s.frame.regs.setIfInBounds result.index (some v) } }

/-- The address of a constant text, put into memory at its first use. -/
def globalAddress (m : Module) (id : GlobalId) : Exec UInt64 := do
  match (← get).store.globals[id.index]? with
  | some (some addr) => pure addr
  | _ =>
    let bytes := (m.globals[id.index]?.getD default).bytes
    let addr ← onMemory (Mem.allocate bytes.size)
    onMemory (Mem.write addr bytes)
    modify fun s =>
      let globals := s.store.globals.setIfInBounds id.index (some addr)
      { s with store := { s.store with globals } }
    pure addr

/-- The value of an operand in the frame. -/
def operand (m : Module) (id : ValueId) : Exec Val := do
  let f ← frame
  match f.func.value? id with
  | none => throw (.malformed (.unknownValue id))
  | some v =>
    match v.kind with
    | .param n =>
      match f.args[n]? with
      | some a => pure a
      | none => throw (.malformed (.missingParam n))
    | .constInt bits => pure (.int bits)
    | .constFloat bits => pure (.float bits)
    | .constNull => pure .null
    | .global g => do
      let addr ← globalAddress m g
      pure (.ptr addr)
    | .inst _ =>
      match f.regs[id.index]? with
      | some (some a) => pure a
      | _ => throw (.malformed (.useBeforeDefinition id f.func.name))

def operandInt (m : Module) (id : ValueId) : Exec UInt64 := do checked (← operand m id).asInt

def operandFloat (m : Module) (id : ValueId) : Exec UInt64 := do checked (← operand m id).asFloat

def operandPtr (m : Module) (id : ValueId) : Exec UInt64 := do checked (← operand m id).asPtr

def operandBool (m : Module) (id : ValueId) : Exec Bool := do checked (← operand m id).asBool

/-- The values of some operands, left to right. -/
def operands (m : Module) : List ValueId → Exec (List Val)
  | [] => pure []
  | id :: rest => do
    let v ← operand m id
    let vs ← operands m rest
    pure (v :: vs)

end Exec

/-- Takes all frames of a run down. -/
def State.unwind (s : State) : Store :=
  { s.store with
    memory := (s.frame :: s.callers).foldl (fun mem f => mem.releaseAll f.slots) s.store.memory }

end BlockForge.Machine
