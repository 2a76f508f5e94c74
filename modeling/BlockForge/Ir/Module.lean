import BlockForge.Ir.Inst

/-!
# Modules

A module holds struct types, constant texts, declarations of host functions, and functions made of
blocks over a table of values. A function without blocks is only declared.
-/

namespace BlockForge.Ir

/-- What a value is. Integer constants are masked to their width; float constants are binary64 bits
at every float type. -/
inductive ValueKind where
  | param (position : Nat)
  | constInt (bits : UInt64)
  | constFloat (bits : UInt64)
  | constNull
  | global (id : GlobalId)
  /-- The result of an instruction of the block. -/
  | inst (block : BlockId)
  deriving DecidableEq, Repr, Inhabited

/-- An entry of a value table; the name may be empty. -/
structure Value where
  ty : Ty
  kind : ValueKind
  name : String
  deriving DecidableEq, Repr, Inhabited

/-- A block: instructions in order, and how control leaves it once that is decided. -/
structure Block where
  name : String
  insts : Array Inst := #[]
  terminator : Option Terminator := none
  deriving Repr, Inhabited

/-- The blocks that control may go to next. -/
def Block.successors (b : Block) : List BlockId :=
  match b.terminator with
  | some t => t.successors
  | none => []

structure Function where
  name : String
  params : List Ty
  ret : Ty
  values : Array Value
  blocks : Array Block
  deriving Repr, Inhabited

namespace Function

/-- A declared function; its parameters are its first values. -/
def declare (name : String) (params : List Ty) (ret : Ty) : Function where
  name := name
  params := params
  ret := ret
  values := (params.mapIdx fun i ty => (⟨ty, .param i, ""⟩ : Value)).toArray
  blocks := #[]

/-- The value of a parameter. -/
def param (position : Nat) : ValueId := ⟨position⟩

def value? (f : Function) (id : ValueId) : Option Value := f.values[id.index]?

def block? (f : Function) (id : BlockId) : Option Block := f.blocks[id.index]?

/-- The type of a value; `void` for a value that does not exist. -/
def valueType (f : Function) (id : ValueId) : Ty :=
  match f.value? id with
  | some v => v.ty
  | none => .void

def isDeclaration (f : Function) : Bool := f.blocks.isEmpty

/-- How many instructions the blocks have together. -/
def instCount (f : Function) : Nat := f.blocks.foldl (fun n b => n + b.insts.size) 0

/-- All instructions, block by block. -/
def insts (f : Function) : List Inst := f.blocks.toList.flatMap (·.insts.toList)

end Function

/-- A function that the host provides. -/
structure HostDecl where
  name : String
  params : List Ty
  ret : Ty
  deriving Repr, Inhabited

/-- A constant byte text, ended by a zero byte. -/
structure Global where
  name : String
  bytes : Array UInt8
  deriving Repr, Inhabited

structure Module where
  name : String
  pointerBits : Nat
  structs : Array StructType := #[]
  globals : Array Global := #[]
  hosts : Array HostDecl := #[]
  functions : Array Function := #[]
  deriving Repr, Inhabited

namespace Module

/-- The integer type as wide as a pointer; 64 bits if there is none. -/
def ptrInt (m : Module) : Ty := (Ty.int? m.pointerBits).getD .i64

/-! ### Struct types -/

/-- Adds a struct type whose fields are set later. -/
def declareStruct (m : Module) (name : String) : StructId × Module :=
  (⟨m.structs.size⟩, { m with structs := m.structs.push ⟨name, []⟩ })

def setStructBody (m : Module) (id : StructId) (fields : List Ty) : Module :=
  { m with structs := m.structs.modify id.index fun s => { s with fields } }

def structFields (m : Module) (id : StructId) : List Ty :=
  match m.structs[id.index]? with
  | some s => s.fields
  | none => []

/-! ### Constants, functions and host functions -/

/-- Adds a constant text. -/
def addString (m : Module) (text : String) : GlobalId × Module :=
  let n := m.globals.size
  let global : Global := ⟨".str." ++ toString n, text.toUTF8.data.push 0⟩
  (⟨n⟩, { m with globals := m.globals.push global })

def declareFunction (m : Module) (name : String) (params : List Ty) (ret : Ty) : FuncId × Module :=
  (⟨m.functions.size⟩, { m with functions := m.functions.push (.declare name params ret) })

def function? (m : Module) (id : FuncId) : Option Function := m.functions[id.index]?

/-- The first function of the given name. -/
def functionNamed? (m : Module) (name : String) : Option FuncId :=
  (m.functions.findIdx? (·.name == name)).map Id.mk

def modifyFunction (m : Module) (id : FuncId) (f : Function → Function) : Module :=
  { m with functions := m.functions.modify id.index f }

def host? (m : Module) (id : HostId) : Option HostDecl := m.hosts[id.index]?

/-- The host function of the given name, declared if it is not there. -/
def declareHost (m : Module) (name : String) (params : List Ty) (ret : Ty) : HostId × Module :=
  match m.hosts.findIdx? (·.name == name) with
  | some i => (⟨i⟩, m)
  | none => (⟨m.hosts.size⟩, { m with hosts := m.hosts.push ⟨name, params, ret⟩ })

end Module

end BlockForge.Ir
