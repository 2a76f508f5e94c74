import BlockForge.Machine.State

/-!
# Steps of the machine

One step executes one instruction or one terminator of the frame in control and costs one unit of
fuel. Merges are free: entering a block resolves all of its leading merges at once, from the edge
taken. A call pushes a frame and a return pops it, so a run of any call depth is a loop of steps.
-/

namespace BlockForge.Machine

open Ir (BlockId Callee FuncId Function Inst InstKind Module Terminator Ty ValueId)

/-! ### Loads and stores -/

/-- Sizes types one after another. Where that never ends, neither does the call: the fault marks it. -/
def sizeTypes (m : Module) : List Ty → Except Fault Unit
  | [] => .ok ()
  | t :: rest =>
    match m.sizeAlign? t with
    | some _ => sizeTypes m rest
    | none => .error (.malformed (.endlessLayout t))

/-- Reads a value of a type from memory. -/
def Memory.load (m : Module) (memory : Memory) (t : Ty) (addr : UInt64) : Except Fault Val :=
  match t with
  | .i1 => (memory.readWord addr 1).map fun w => .int (w &&& 1)
  | .i8 | .i16 | .i32 | .i64 => (memory.readWord addr (m.sizeOf t)).map .int
  | .f32 => (memory.readWord addr 4).map fun w => .float (Binary64.ofSingleBits w.toUInt32)
  | .f64 => (memory.readWord addr 8).map .float
  | .ptr => (memory.readWord addr (m.sizeOf t)).map .ptr
  | .void | .struct _ => .error (.malformed (.loadOf t))

/-- Writes the word of a value as a type. -/
def Mem.storeWord (m : Module) (t : Ty) (addr : UInt64) (v : Val) (w : UInt64) : Mem Unit := do
  checked (sizeTypes m [t])
  if 0 < m.sizeOf t then writeWord addr (m.sizeOf t) w
  else throw (.malformed (.storeOf v t))

/-- Writes a value as a type to memory. Integers and addresses are stored at any type that has a
size, floats at float types only. -/
def Mem.store (m : Module) (t : Ty) (addr : UInt64) (v : Val) : Mem Unit :=
  match t, v with
  | .f32, .float bits => writeWord addr 4 (Binary64.toSingleBits bits).toUInt64
  | .f64, .float bits => writeWord addr 8 bits
  | t, .int w | t, .ptr w => storeWord m t addr v w
  | t, v => throw (.malformed (.storeOf v t))

/-! ### Instructions -/

/-- What an instruction asks for beyond operands and memory. -/
inductive Effect where
  /-- Go on, with this result. -/
  | done (value : Option Val)
  /-- Go on, and keep this address as a slot of the frame. -/
  | slot (addr : UInt64)
  /-- Call a function of the module. -/
  | call (func : FuncId) (args : List Val)

namespace Exec

/-- The type of an operand as declared. -/
def typeOf (id : ValueId) : Exec Ty := do return (← frame).func.valueType id

def binary (m : Module) (op : Ir.BinOp) (lhs rhs : ValueId) : Exec Val := do
  let t ← typeOf lhs
  let a ← operand m lhs
  let b ← operand m rhs
  if op.isFloat then
    let a ← checked a.asFloat
    let b ← checked b.asFloat
    pure (.float (roundTo t (floatBinary op a b)))
  else
    let bits ← checked (opBits t)
    let a ← checked a.asInt
    let b ← checked b.asInt
    match intBinary op bits a b with
    | some w => pure (.int w)
    | none => throw (.divisionByZero (← frame).func.name)

def compare (m : Module) (pred : Ir.IntPred) (lhs rhs : ValueId) : Exec Val := do
  let t ← typeOf lhs
  let a ← operand m lhs
  let b ← operand m rhs
  match a, b with
  | .ptr a, .ptr b => pure (.bool (intCompare pred 64 a b))
  | a, b =>
    let a ← checked a.asInt
    let b ← checked b.asInt
    let bits ← checked (opBits t)
    pure (.bool (intCompare pred bits a b))

/-- Executes an instruction. -/
def perform (m : Module) (kind : InstKind) : Exec Effect := do
  match kind with
  | .alloca t =>
    checked (sizeTypes m [t])
    let addr ← onMemory (Mem.allocate (m.sizeOf t))
    pure (.slot addr)
  | .load t p =>
    let addr ← operandPtr m p
    let v ← checked (Memory.load m (← memory) t addr)
    pure (.done (some v))
  | .store v p =>
    let t ← typeOf v
    let v ← operand m v
    let addr ← operandPtr m p
    onMemory (Mem.store m t addr v)
    pure (.done none)
  | .binary op a b =>
    let v ← binary m op a b
    pure (.done (some v))
  | .fneg v =>
    let f ← operandFloat m v
    pure (.done (some (.float (Binary64.neg f))))
  | .icmp pred a b =>
    let v ← compare m pred a b
    pure (.done (some v))
  | .fcmp pred a b =>
    let a ← operandFloat m a
    let b ← operandFloat m b
    pure (.done (some (.bool (floatCompare pred a b))))
  | .cast op v target =>
    let source ← typeOf v
    let v ← operand m v
    let r ← checked (convert op source target v)
    pure (.done (some r))
  | .select c a b =>
    let v ← if (← operandBool m c) then operand m a else operand m b
    pure (.done (some v))
  | .phi .. => throw (.malformed (.latePhi (← frame).func.name))
  | .call (.func id) args _ =>
    let args ← operands m args
    pure (.call id args)
  | .call (.host id) args _ =>
    let args ← operands m args
    let name := ((m.host? id).getD default).name
    let v ← onMemory (callHost name args)
    pure (.done v)
  | .ptrAdd p o =>
    let addr ← operandPtr m p
    let offset ← operandInt m o
    pure (.done (some (.ptr (addr + offset))))
  | .fieldPtr s p field =>
    let addr ← operandPtr m p
    if addr = 0 then throw .nullDereference
    checked (sizeTypes m (m.fieldsUpTo s field))
    pure (.done (some (.ptr (addr + UInt64.ofNat (m.fieldOffset s field)))))
  | .memCopy d s l | .memMove d s l =>
    let dst ← operandPtr m d
    let src ← operandPtr m s
    let len ← operandInt m l
    onMemory (Mem.copy dst src len.toNat)
    pure (.done none)

/-! ### Blocks -/

/-- The values of leading merges, for control coming from `source`. -/
def phiValues (m : Module) (block : BlockId) (source : Option BlockId) :
    List Inst → Exec (List (Option ValueId × Val))
  | ⟨result, .phi _ incoming⟩ :: rest => do
    match source with
    | none => throw (.malformed .phiInEntry)
    | some source =>
      match incoming.find? fun edge => edge.2 = source with
      | none => throw (.malformed (.phiEdge block source))
      | some (v, _) =>
        let v ← operand m v
        let values ← phiValues m block (some source) rest
        pure ((result, v) :: values)
  | _ => pure []

/-- Defines the results that have a number. -/
def setRegs : List (Option ValueId × Val) → Exec Unit
  | [] => pure ()
  | (some r, v) :: rest => do
    setReg r v
    setRegs rest
  | (none, _) :: rest => setRegs rest

/-- Moves control to a block and resolves its leading merges. -/
def enterBlock (m : Module) (block : BlockId) (source : Option BlockId) : Exec Unit := do
  match (← frame).func.block? block with
  | none => throw (.malformed (.missingBlock block))
  | some code =>
    let values ← phiValues m block source code.insts.toList
    setRegs values
    modify fun s => { s with frame := { s.frame with block, code, next := values.length } }

end Exec

/-! ### Calls -/

/-- A frame for a function, or why it cannot be called. -/
def Frame.ofCall (m : Module) (limit : Nat) (id : FuncId) (args : List Val) (depth : Nat) :
    Except Fault Frame :=
  let f := (m.function? id).getD default
  if f.isDeclaration then .error (.malformed (.noBody f.name))
  else if args.length ≠ f.params.length then
    .error (.argCount f.name f.params.length args.length)
  else if limit ≤ depth then .error (.stackOverflow limit)
  else
    .ok {
      func := f
      args := args.toArray
      regs := Array.replicate f.values.size none
      depth := depth + 1 }

/-- Counts an entry of a function. -/
def Store.countCall (store : Store) (id : FuncId) : Store :=
  { store with calls := store.calls.modify id.index (· + 1) }

namespace Exec

/-- Pushes a frame and enters its first block. -/
def pushCall (m : Module) (limit : Nat) (id : FuncId) (args : List Val) : Exec Unit := do
  let depth := (← frame).depth
  let callee ← checked (Frame.ofCall m limit id args depth)
  modify fun ⟨store, frame, callers⟩ => ⟨store.countCall id, callee, frame :: callers⟩
  enterBlock m Ir.Id.entry none

/-- Goes on behind an instruction, with its result if both sides have one. -/
def finishInst (inst : Inst) (value : Option Val) : Exec Unit := do
  match inst.result, value with
  | some r, some v => setReg r v
  | _, _ => pure ()
  modify fun s => { s with frame := { s.frame with next := s.frame.next + 1 } }

/-- Goes on behind the call that the frame in control waits for. -/
def resume (value : Option Val) : Exec Unit := do
  let f ← frame
  match f.code.insts[f.next]? with
  | some inst => finishInst inst value
  | none => pure ()

/-- Takes the frame in control down. Gives whether a caller is left to go on. -/
def popFrame : Exec Bool := modifyGet fun ⟨⟨memory, globals, calls⟩, frame, callers⟩ =>
  let store : Store := ⟨memory.releaseAll frame.slots, globals, calls⟩
  match callers with
  | [] => (false, ⟨store, { frame with slots := [] }, []⟩)
  | caller :: callers => (true, ⟨store, caller, callers⟩)

/-- Returns from the frame in control. Gives `none` if a caller goes on, else the end of the run. -/
def popReturn (value : Option Val) : Exec (Option (Option Val)) := do
  if ← popFrame then
    resume value
    pure none
  else pure (some value)

/-- Executes an instruction of the frame in control. -/
def stepInst (m : Module) (limit : Nat) (inst : Inst) : Exec Unit := do
  match ← perform m inst.kind with
  | .done v => finishInst inst v
  | .slot addr =>
    modify fun s => { s with frame := { s.frame with slots := addr :: s.frame.slots } }
    finishInst inst (some (.ptr addr))
  | .call id args => pushCall m limit id args

/-- Leaves the current block. -/
def stepTerminator (m : Module) : Exec (Option (Option Val)) := do
  let f ← frame
  match f.code.terminator with
  | none => throw (.malformed (.openBlock f.block f.func.name))
  | some (.br target) =>
    enterBlock m target (some f.block)
    pure none
  | some (.condBr c a b) =>
    let taken ← operandBool m c
    enterBlock m (if taken then a else b) (some f.block)
    pure none
  | some (.ret none) => popReturn none
  | some (.ret (some v)) =>
    let v ← operand m v
    popReturn (some v)
  | some .unreachable => throw (.unreachable f.func.name)

/-- One step. Gives the result of the run once it has ended. -/
def step (m : Module) (limit : Nat) : Exec (Option (Option Val)) := do
  let f ← frame
  match f.code.insts[f.next]? with
  | some inst =>
    stepInst m limit inst
    pure none
  | none => stepTerminator m

end Exec

/-! ### Runs -/

/-- How a run ended, the store behind it, and the fuel left. -/
structure Outcome where
  result : Except Fault (Option Val)
  store : Store
  fuel : Nat

/-- Steps until the run ends or the fuel is used up. -/
def run (m : Module) (limit : Nat) : (fuel : Nat) → State → Outcome
  | 0, s => ⟨.error .outOfFuel, s.unwind, 0⟩
  | fuel + 1, s =>
    match Exec.step m limit s with
    | .ok none s => run m limit fuel s
    | .ok (some v) s => ⟨.ok v, s.store, fuel⟩
    | .error e s => ⟨.error e, s.unwind, fuel⟩

/-- Calls a function from outside of any frame. -/
def invoke (m : Module) (limit fuel : Nat) (store : Store) (id : FuncId) (args : List Val) :
    Outcome :=
  match Frame.ofCall m limit id args 0 with
  | .error e => ⟨.error e, store, fuel⟩
  | .ok frame =>
    match Exec.enterBlock m Ir.Id.entry none ⟨store.countCall id, frame, []⟩ with
    | .ok () s => run m limit fuel s
    | .error e s => ⟨.error e, s.unwind, fuel⟩

end BlockForge.Machine
