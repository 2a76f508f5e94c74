import BlockForge.Lowering.Allocator

/-!
# Vector operations as instructions

A vector is an address of a descriptor: the address of its elements, its size and its capacity.
Elements lie at `elements + index * size of an element`. A full vector doubles its capacity, starting
from one, and moves its elements to a new buffer. All indices and sizes are as wide as a pointer.
-/

namespace BlockForge.Lowering

open Ir (Emit IntPred StructId ValueId)

/-- What the code of an operation depends on: the descriptor's struct type, how an element is
represented and stored, and how memory is allocated. -/
structure VectorShape where
  struct : StructId
  elem : Ir.Ty
  elemSize : Nat
  kind : AllocKind
  allocator : Allocator

/-- The hook called with index and size if an index is out of bounds. -/
def boundsErrorHook : String := "reso_rt_bounds_error"

/-- The fields of a descriptor. -/
inductive VectorField where
  | elems | size | capacity
  deriving DecidableEq, Repr

namespace VectorField

def position : VectorField → Nat
  | elems => 0 | size => 1 | capacity => 2

def label : VectorField → String
  | elems => "elems.ptr" | size => "size.ptr" | capacity => "cap.ptr"

end VectorField

/-- Calls the hook with index and size. -/
def callBoundsError (index size : ValueId) : Emit Unit := do
  let t := (← get).module.ptrInt
  let hook ← Emit.onModule (·.declareHost boundsErrorHook [t, t] .void)
  let _ ← Emit.callHost hook [index, size] ""

/-- Calls the hook unless the index is below the size, or equal to it if `inclusive`. Goes on in the
block where the index is in bounds. -/
def emitBoundsCheck (index size : ValueId) (inclusive : Bool) : Emit Unit := do
  let pred : IntPred := if inclusive then .ule else .ult
  let ok ← Emit.icmp pred index size "inbounds"
  let inBounds ← Emit.appendBlock "vec.inbounds"
  let outOfBounds ← Emit.appendBlock "vec.oob"
  Emit.condBr ok inBounds outOfBounds
  Emit.positionAt outOfBounds
  callBoundsError index size
  Emit.unreachable
  Emit.positionAt inBounds

namespace VectorShape

variable (v : VectorShape)

/-! ### Descriptor and elements -/

def fieldPtr (desc : ValueId) (f : VectorField) : Emit ValueId :=
  Emit.fieldPtr v.struct desc f.position f.label

def loadField (desc : ValueId) (f : VectorField) (name : String) : Emit ValueId := do
  let ptr ← v.fieldPtr desc f
  let word := (← get).module.ptrInt
  Emit.load (if f = .elems then .ptr else word) ptr name

def storeField (desc : ValueId) (f : VectorField) (value : ValueId) : Emit Unit := do
  let ptr ← v.fieldPtr desc f
  Emit.store value ptr

def loadSize (desc : ValueId) : Emit ValueId := v.loadField desc .size "vec.size"

def loadElems (desc : ValueId) : Emit ValueId := v.loadField desc .elems "vec.elems"

def loadCapacity (desc : ValueId) : Emit ValueId := v.loadField desc .capacity "vec.cap"

/-- The address of an element. -/
def elementPtr (elems index : ValueId) : Emit ValueId := do
  let size ← Emit.constUsize (UInt64.ofNat v.elemSize)
  let offset ← Emit.binary .mul index size "elem.off"
  Emit.ptrAdd elems offset "elem.ptr"

/-- The bytes that some elements take. -/
def byteLen (count : ValueId) : Emit ValueId := do
  let size ← Emit.constUsize (UInt64.ofNat v.elemSize)
  Emit.binary .mul count size "bytes"

/-- Stores the size plus or minus one. -/
def bumpSize (desc size : ValueId) (grow : Bool) : Emit Unit := do
  let one ← Emit.constUsize 1
  let newSize ←
    if grow then Emit.binary .add size one "size.inc" else Emit.binary .sub size one "size.dec"
  v.storeField desc .size newSize

/-! ### Growth -/

/-- Twice the capacity, or one. -/
def doubledCapacity (cap : ValueId) : Emit ValueId := do
  let t := (← get).module.ptrInt
  let zero ← Emit.constInt t 0
  let one ← Emit.constInt t 1
  let two ← Emit.constInt t 2
  let empty ← Emit.icmp .eq cap zero "cap.zero"
  let doubled ← Emit.binary .mul cap two "cap.double"
  Emit.select empty one doubled "cap.new"

/-- Moves the elements to a larger buffer. -/
def moveElements (desc size cap : ValueId) : Emit Unit := do
  let newCap ← doubledCapacity cap
  let bytes ← v.byteLen newCap
  let buffer ← v.allocator.allocate bytes v.kind "vec.buf"
  let old ← v.loadElems desc
  let live ← v.byteLen size
  Emit.memCopy buffer old live
  v.storeField desc .elems buffer
  v.storeField desc .capacity newCap

/-- Doubles the capacity if the vector is full. Goes on in the block where there is room. -/
def ensureCapacity (desc size : ValueId) : Emit Unit := do
  let cap ← v.loadCapacity desc
  let full ← Emit.icmp .uge size cap "vec.full"
  let grow ← Emit.appendBlock "vec.grow"
  let room ← Emit.appendBlock "vec.append"
  Emit.condBr full grow room
  Emit.positionAt grow
  v.moveElements desc size cap
  Emit.br room
  Emit.positionAt room

/-! ### Operations -/

/-- The size in bytes of a new vector's buffer: the largest word if it would not fit one. -/
def initialBytes (capacity : UInt64) : UInt64 :=
  UInt64.ofNat (min (capacity.toNat * v.elemSize) 0xffffffffffffffff)

/-- The buffer of a new vector. Without capacity there is none yet. -/
def newBuffer (capacity : UInt64) : Emit ValueId :=
  if 0 < capacity then do
    let size ← Emit.constUsize (v.initialBytes capacity)
    v.allocator.allocate size v.kind "vec.buf"
  else Emit.constNull

/-- A new empty vector. -/
def new (descBytes : Nat) (capacity : UInt64) : Emit ValueId := do
  let t := (← get).module.ptrInt
  let descSize ← Emit.constUsize (UInt64.ofNat descBytes)
  let desc ← v.allocator.allocate descSize .general "vec"
  let elems ← v.newBuffer capacity
  let zero ← Emit.constInt t 0
  let cap ← Emit.constUsize capacity
  v.storeField desc .elems elems
  v.storeField desc .size zero
  v.storeField desc .capacity cap
  pure desc

/-- A vector's size, its elements, and the address of one of them. -/
structure Access where
  size : ValueId
  elems : ValueId
  slot : ValueId

/-- Checks an index and finds the element at it. -/
def access (desc index : ValueId) : Emit Access := do
  let size ← v.loadSize desc
  emitBoundsCheck index size false
  let elems ← v.loadElems desc
  let slot ← v.elementPtr elems index
  pure ⟨size, elems, slot⟩

/-- The element at an index. -/
def getAt (desc index : ValueId) : Emit ValueId := do
  let a ← v.access desc index
  Emit.load v.elem a.slot "elem"

/-- Overwrites the element at an index. -/
def setAt (desc index value : ValueId) : Emit Unit := do
  let a ← v.access desc index
  Emit.store value a.slot

/-- Appends an element. -/
def append (desc value : ValueId) : Emit Unit := do
  let size ← v.loadSize desc
  v.ensureCapacity desc size
  let elems ← v.loadElems desc
  let ptr ← v.elementPtr elems size
  Emit.store value ptr
  v.bumpSize desc size true

/-- Moves the elements from an index on, which is at `slot`, one place up. -/
def openGap (elems index size slot : ValueId) : Emit Unit := do
  let one ← Emit.constUsize 1
  let next ← Emit.binary .add index one "idx.next"
  let dst ← v.elementPtr elems next
  let tail ← Emit.binary .sub size index "tail"
  let bytes ← v.byteLen tail
  Emit.memMove dst slot bytes

/-- Moves the elements from an index on down to `slot`. -/
def closeGap (elems next size slot : ValueId) : Emit Unit := do
  let src ← v.elementPtr elems next
  let tail ← Emit.binary .sub size next "tail"
  let bytes ← v.byteLen tail
  Emit.memMove slot src bytes

/-- Puts an element before the one at an index; the index may be the size. -/
def insertAt (desc index value : ValueId) : Emit Unit := do
  let size ← v.loadSize desc
  emitBoundsCheck index size true
  v.ensureCapacity desc size
  let elems ← v.loadElems desc
  let slot ← v.elementPtr elems index
  v.openGap elems index size slot
  Emit.store value slot
  v.bumpSize desc size true

/-- Takes the element at an index out. -/
def removeAt (desc index : ValueId) : Emit ValueId := do
  let a ← v.access desc index
  let removed ← Emit.load v.elem a.slot "removed"
  let one ← Emit.constUsize 1
  let next ← Emit.binary .add index one "idx.next"
  let hasTail ← Emit.icmp .ult next a.size "has.tail"
  let shift ← Emit.appendBlock "vec.shift"
  let done ← Emit.appendBlock "vec.removed"
  Emit.condBr hasTail shift done
  Emit.positionAt shift
  v.closeGap a.elems next a.size a.slot
  Emit.br done
  Emit.positionAt done
  v.bumpSize desc a.size false
  pure removed

end VectorShape

end BlockForge.Lowering
