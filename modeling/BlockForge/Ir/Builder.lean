import BlockForge.Ir.Graph
import BlockForge.Numeric.Binary64
import BlockForge.Numeric.Word

/-!
# Building function bodies

A `Builder` fills in the body of one function of a module: position at a block, emit instructions,
end the block. What is emitted without a position or after a block has ended is dropped, though its
result still gets a number; the first terminator of a block stays. Operations ask something of their
caller; a builder notes each time that this is not so, and goes on all the same.
-/

namespace BlockForge.Ir

/-- What an operation of the builder asks of its caller. -/
inductive Demand where
  /-- The function has no body yet. -/
  | noBody
  /-- The block to continue at exists. -/
  | blockExists
  /-- There is a position. -/
  | position
  /-- The current block has not ended. -/
  | blockOpen
  /-- There is an entry block. -/
  | entryExists
  /-- Memory is accessed through a pointer. -/
  | pointer
  /-- The struct has the field. -/
  | fieldExists
  /-- Both operands have one type. -/
  | sameTypes
  /-- A float operator has float operands, any other has none. -/
  | operatorClass
  /-- A call has as many arguments as the function has parameters. -/
  | callArity
  /-- A branch tests a truth value. -/
  | condition
  deriving DecidableEq, Repr

/-- A function body under construction. `terminators` counts the blocks ended through this builder;
the block graph changes only when it grows. `broken` lists the demands not met so far. -/
structure Builder where
  module : Module
  func : FuncId
  current : Option BlockId := none
  terminators : Nat := 0
  broken : List Demand := []
  deriving Inhabited

namespace Builder

/-- The function being built. -/
def function (b : Builder) : Function := (b.module.function? b.func).getD default

def valueType (b : Builder) (v : ValueId) : Ty := b.function.valueType v

/-- The bits of an integer constant. -/
def constIntValue? (b : Builder) (v : ValueId) : Option UInt64 :=
  match b.function.value? v with
  | some ⟨_, .constInt bits, _⟩ => some bits
  | _ => none

/-- Whether a block has ended. -/
def hasTerminator (b : Builder) (block : BlockId) : Bool :=
  match b.function.block? block with
  | some bl => bl.terminator.isSome
  | none => false

/-- Whether there is no position, or its block has ended. -/
def currentTerminated (b : Builder) : Bool :=
  match b.current with
  | some block => b.hasTerminator block
  | none => true

/-- Notes a demand unless it is met. -/
def demand (b : Builder) (d : Demand) (met : Bool) : Builder :=
  if met then b else { b with broken := d :: b.broken }

/-- A builder for the body of a declared function. -/
def start (module : Module) (func : FuncId) : Builder :=
  let b : Builder := { module, func }
  b.demand .noBody b.function.isDeclaration

def modifyFunction (b : Builder) (f : Function → Function) : Builder :=
  { b with module := b.module.modifyFunction b.func f }

def modifyBlock (b : Builder) (block : BlockId) (f : Block → Block) : Builder :=
  b.modifyFunction fun fn => { fn with blocks := fn.blocks.modify block.index f }

end Builder

/-- An operation of the builder. -/
abbrev Emit := StateM Builder

/-- Puts an instruction behind the leading ones of a class. -/
def insertAfterLeading (leading : Inst → Bool) (i : Inst) (insts : Array Inst) : Array Inst :=
  (insts.toList.takeWhile leading ++ i :: insts.toList.dropWhile leading).toArray

namespace Emit

/-! ### Values and blocks -/

/-- Asks for a condition on the builder. -/
def demand (d : Demand) (met : Builder → Bool) : Emit Unit := modify fun b => b.demand d (met b)

/-- Runs an operation of the module. -/
def onModule {α : Type} (f : Module → α × Module) : Emit α := fun b =>
  let (a, module) := f b.module
  (a, { b with module })

/-- Appends to the value table. -/
def pushValue (ty : Ty) (kind : ValueKind) (name : String) : Emit ValueId := fun b =>
  (⟨b.function.values.size⟩,
    b.modifyFunction fun f => { f with values := f.values.push ⟨ty, kind, name⟩ })

/-- Appends an empty block; the first one is the entry. -/
def appendBlock (name : String) : Emit BlockId := fun b =>
  (⟨b.function.blocks.size⟩,
    b.modifyFunction fun f => { f with blocks := f.blocks.push { name } })

/-- Continues at the end of a block. -/
def positionAt (block : BlockId) : Emit Unit := do
  demand .blockExists fun b => block.index < b.function.blocks.size
  modify fun b => { b with current := some block }

/-- Sets the terminator of a block that has none; `false` if it has one. -/
def closeBlock (block : BlockId) (t : Terminator) : Emit Bool := fun b =>
  if b.hasTerminator block then (false, b)
  else
    (true, { b.modifyBlock block (fun bl => { bl with terminator := some t }) with
      terminators := b.terminators + 1 })

/-- Ends a block as unreachable if it has not ended. -/
def sealBlock (block : BlockId) : Emit Bool := closeBlock block .unreachable

/-! ### Emission -/

/-- Appends to the current block, unless there is none or it has ended. -/
def insert (kind : InstKind) (result : Option ValueId) : Emit Unit := modify fun b =>
  match b.current with
  | none => b.demand .position false
  | some block =>
    if b.hasTerminator block then b.demand .blockOpen false
    else b.modifyBlock block fun bl => { bl with insts := bl.insts.push ⟨result, kind⟩ }

/-- Emits an instruction with a result. -/
def emit (ty : Ty) (kind : InstKind) (name : String) : Emit ValueId := do
  let b ← get
  let result ← pushValue ty (.inst (b.current.getD Id.entry)) name
  insert kind (some result)
  pure result

/-- Emits an instruction without a result. -/
def emitVoid (kind : InstKind) : Emit Unit := insert kind none

/-- Ends the current block. -/
def terminate (t : Terminator) : Emit Unit := do
  match (← get).current with
  | none => demand .position fun _ => false
  | some block =>
    let closed ← closeBlock block t
    demand .blockOpen fun _ => closed

/-! ### Constants -/

/-- An integer constant, cut to the width of its type. -/
def constInt (ty : Ty) (value : UInt64) : Emit ValueId :=
  pushValue ty (.constInt (Word.mask value (ty.intBits?.getD 64))) ""

def constBool (value : Bool) : Emit ValueId := constInt .i1 (if value then 1 else 0)

/-- A constant as wide as a pointer. -/
def constUsize (value : UInt64) : Emit ValueId := do
  constInt (← get).module.ptrInt value

/-- A float constant, rounded to the precision of its type. -/
def constFloat (ty : Ty) (bits : UInt64) : Emit ValueId :=
  pushValue ty (.constFloat (if ty = .f32 then Binary64.roundSingle bits else bits)) ""

def constNull : Emit ValueId := pushValue .ptr .constNull ""

/-- The address of a new constant text. -/
def globalString (text : String) : Emit ValueId := do
  let global ← onModule (·.addString text)
  pushValue .ptr (.global global) ""

/-! ### Memory -/

def alloca (ty : Ty) (name : String) : Emit ValueId := emit .ptr (.alloca ty) name

/-- A stack slot behind those at the start of the entry block, wherever the position is. -/
def entryAlloca (ty : Ty) (name : String) : Emit ValueId := do
  let result ← pushValue .ptr (.inst Id.entry) name
  demand .entryExists fun b => !b.function.blocks.isEmpty
  modify fun b => b.modifyBlock Id.entry fun bl =>
    { bl with insts := insertAfterLeading (·.kind.isAlloca) ⟨some result, .alloca ty⟩ bl.insts }
  pure result

def load (ty : Ty) (ptr : ValueId) (name : String) : Emit ValueId := do
  demand .pointer fun b => (b.valueType ptr).isPtr
  emit ty (.load ty ptr) name

def store (value ptr : ValueId) : Emit Unit := do
  demand .pointer fun b => (b.valueType ptr).isPtr
  emitVoid (.store value ptr)

def ptrAdd (ptr offset : ValueId) (name : String) : Emit ValueId :=
  emit .ptr (.ptrAdd ptr offset) name

def fieldPtr (struct : StructId) (ptr : ValueId) (field : Nat) (name : String) :
    Emit ValueId := do
  demand .fieldExists fun b => field < (b.module.structFields struct).length
  emit .ptr (.fieldPtr struct ptr field) name

def memCopy (dst src len : ValueId) : Emit Unit := emitVoid (.memCopy dst src len)

def memMove (dst src len : ValueId) : Emit Unit := emitVoid (.memMove dst src len)

/-! ### Arithmetic -/

/-- The result has the type of the left operand. -/
def binary (op : BinOp) (lhs rhs : ValueId) (name : String) : Emit ValueId := do
  demand .sameTypes fun b => b.valueType lhs = b.valueType rhs
  demand .operatorClass fun b => op.isFloat == (b.valueType lhs).isFloat
  emit ((← get).valueType lhs) (.binary op lhs rhs) name

/-- Integer negation: zero minus the operand. -/
def neg (operand : ValueId) (name : String) : Emit ValueId := do
  let zero ← constInt ((← get).valueType operand) 0
  binary .sub zero operand name

def fneg (operand : ValueId) (name : String) : Emit ValueId := do
  emit ((← get).valueType operand) (.fneg operand) name

/-- The bitwise complement: the operand against all ones. -/
def not (operand : ValueId) (name : String) : Emit ValueId := do
  let ones ← constInt ((← get).valueType operand) 0xffffffffffffffff
  binary .xor operand ones name

/-! ### Comparison and conversion -/

def icmp (pred : IntPred) (lhs rhs : ValueId) (name : String) : Emit ValueId := do
  demand .sameTypes fun b => b.valueType lhs = b.valueType rhs
  emit .i1 (.icmp pred lhs rhs) name

def fcmp (pred : FloatPred) (lhs rhs : ValueId) (name : String) : Emit ValueId :=
  emit .i1 (.fcmp pred lhs rhs) name

def cast (op : CastOp) (value : ValueId) (target : Ty) (name : String) : Emit ValueId :=
  emit target (.cast op value target) name

/-- Brings an integer to another width: extends by its signedness, truncates, or leaves it. Types
that are not integers count as 64 bits wide. -/
def intResize (value : ValueId) (target : Ty) (signed : Bool) (name : String) : Emit ValueId := do
  let before := ((← get).valueType value).intBits?.getD 64
  let after := target.intBits?.getD 64
  if before = after then pure value
  else if before < after then cast (if signed then .sext else .zext) value target name
  else cast .trunc value target name

/-! ### Selection, merging and calls -/

def select (cond ifTrue ifFalse : ValueId) (name : String) : Emit ValueId := do
  emit ((← get).valueType ifTrue) (.select cond ifTrue ifFalse) name

/-- Merges values at the start of the current block, behind other merges there; also if the block
has ended. Without a position the result is a zero constant. -/
def phi (ty : Ty) (incoming : List (ValueId × BlockId)) (name : String) : Emit ValueId := do
  match (← get).current with
  | none =>
    demand .position fun _ => false
    constInt ty 0
  | some block =>
    let result ← pushValue ty (.inst block) name
    modify fun b => b.modifyBlock block fun bl =>
      { bl with insts := insertAfterLeading (·.kind.isPhi) ⟨some result, .phi ty incoming⟩ bl.insts }
    pure result

/-- A call with the given return type; no result for `void`. -/
def callAt (callee : Callee) (ret : Ty) (args : List ValueId) (name : String) :
    Emit (Option ValueId) := do
  if ret = .void then
    emitVoid (.call callee args ret)
    pure none
  else some <$> emit ret (.call callee args ret) name

def call (func : FuncId) (args : List ValueId) (name : String) : Emit (Option ValueId) := do
  demand .callArity fun b =>
    ((b.module.function? func).elim 0 (·.params.length)) = args.length
  let ret := ((← get).module.function? func).elim Ty.void (·.ret)
  callAt (.func func) ret args name

def callHost (host : HostId) (args : List ValueId) (name : String) : Emit (Option ValueId) := do
  let ret := ((← get).module.host? host).elim Ty.void (·.ret)
  callAt (.host host) ret args name

/-! ### Terminators -/

def br (target : BlockId) : Emit Unit := terminate (.br target)

def condBr (cond : ValueId) (ifTrue ifFalse : BlockId) : Emit Unit := do
  demand .condition fun b => b.valueType cond = .i1
  terminate (.condBr cond ifTrue ifFalse)

def ret (value : ValueId) : Emit Unit := terminate (.ret (some value))

def retVoid : Emit Unit := terminate (.ret none)

def unreachable : Emit Unit := terminate .unreachable

end Emit

end BlockForge.Ir
