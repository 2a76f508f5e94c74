import BlockForge.Numeric.Wide
import BlockForge.Types.Basic

/-!
# Target layout

The pointer width of the target fixes the storage size of every type and the value range of every
integer type.
-/

namespace BlockForge.Types

/-- A compilation target, by the width of its pointers. -/
structure Layout where
  pointerBits : Nat := 64
  deriving DecidableEq, Repr

namespace Layout

def pointerBytes (l : Layout) : Nat := l.pointerBits / 8

def intBits (l : Layout) (w : IntWidth) : Nat := w.bits l.pointerBits

/-- The storage size in bytes. References store a pointer; `()` needs no storage. -/
def sizeOf (l : Layout) : Ty → Nat
  | .signed w | .unsigned w => l.intBits w / 8
  | .float w => w.bits / 8
  | .bool => 1
  | .char => 4
  | .unit => 0
  | .string | .record _ | .vector _ | .null => l.pointerBytes

/-- The alignment: the size, but at least one. -/
def alignOf (l : Layout) (t : Ty) : Nat := max (l.sizeOf t) 1

/-- The least and greatest value of an integer type. -/
def intRange? (l : Layout) : Ty → Option (Int × Int)
  | .signed w => some (Wide.signedRange (l.intBits w))
  | .unsigned w => some (Wide.unsignedRange (l.intBits w))
  | _ => none

end Layout

end BlockForge.Types
