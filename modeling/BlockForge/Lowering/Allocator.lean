import BlockForge.Ir.Builder

/-!
# Heap allocation

Records and vectors are allocated through an `Allocator`, which emits the code for one allocation.
Lowered code never frees: the run-time system behind an allocator keeps memory alive and hands it out
zeroed.
-/

namespace BlockForge.Lowering

open Ir (Emit ValueId)

/-- What the allocated memory will hold. -/
inductive AllocKind where
  /-- Perhaps references to other objects. -/
  | general
  /-- No references. -/
  | noReferences
  deriving DecidableEq, Repr

/-- Emits an allocation of `size` bytes, a value as wide as a pointer, and gives its address. -/
structure Allocator where
  allocate : (size : ValueId) → AllocKind → (name : String) → Emit ValueId

namespace Allocator

/-- Calls a host function that gives a pointer. -/
def callAllocator (symbol : String) (params : List Ir.Ty) (args : List ValueId) (name : String) :
    Emit ValueId := do
  let host ← Emit.onModule (·.declareHost symbol params .ptr)
  match ← Emit.callHost host args name with
  | some ptr => pure ptr
  | none => Emit.constNull

/-- The allocators of a conservative collector, which does not scan memory without references. -/
def collector : Allocator where
  allocate size kind name := do
    let symbol := match kind with
      | .general => "GC_malloc"
      | .noReferences => "GC_malloc_atomic"
    callAllocator symbol [(← get).module.ptrInt] [size] name

/-! ### Other run-time systems

Lowering knows an allocator only as the code it emits, so that another run-time system takes nothing but another
allocator.
-/

/-- The allocator of a run-time system with one entry point, which takes the kind as a flag. -/
def flagged : Allocator where
  allocate size kind name := do
    let flag ← Emit.constBool (kind = .noReferences)
    callAllocator "rt_alloc" [(← get).module.ptrInt, .i1] [size, flag] name

end Allocator

end BlockForge.Lowering
