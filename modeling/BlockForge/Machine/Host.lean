import BlockForge.Machine.Memory

/-!
# Host functions

What the host provides to a running module: zeroed heap memory that is never given back, and the
hook that a failed bounds check calls.
-/

namespace BlockForge.Machine

/-- The allocator for memory that may hold references. -/
def hostMalloc : String := "GC_malloc"

/-- The allocator for memory without references. -/
def hostMallocAtomic : String := "GC_malloc_atomic"

/-- The hook called with an index and a size when the index is out of bounds. -/
def hostBoundsError : String := "reso_rt_bounds_error"

/-- The argument at a position. -/
def hostArg (name : String) (args : List Val) (position : Nat) : Except Fault Val :=
  match args[position]? with
  | some v => .ok v
  | none => .error (.argCount name (position + 1) args.length)

/-- An integer argument. -/
def hostInt (name : String) (args : List Val) (position : Nat) : Except Fault UInt64 :=
  (hostArg name args position).bind Val.asInt

/-- Runs a host function on the memory. -/
def callHost (name : String) (args : List Val) : Mem (Option Val) :=
  if name = hostMalloc ∨ name = hostMallocAtomic then do
    let size ← checked (hostInt name args 0)
    let addr ← Mem.allocate size.toNat
    pure (some (.ptr addr))
  else if name = hostBoundsError then do
    let index ← checked (hostInt name args 0)
    let size ← checked (hostInt name args 1)
    throw (.boundsCheck index size)
  else throw (.unknownHost name)

end BlockForge.Machine
