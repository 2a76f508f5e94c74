import BlockForge.Ir.Module

/-!
# Storage layout

Sizes, alignments and field offsets of instruction-level types. A struct places its fields in order,
each at the next multiple of its alignment, and rounds its own size up to its alignment. Nothing keeps a
struct from containing itself: sizing it then asks for its own size again, and never ends.
-/

namespace BlockForge.Ir

/-- The least multiple of `align` that is at least `n`. -/
def roundUp (n align : Nat) : Nat := (n + align - 1) / align * align

/-- Places a field behind what has been placed, and takes account of its alignment. -/
def place (placed field : Nat × Nat) : Nat × Nat :=
  (roundUp placed.1 field.2 + field.1, max placed.2 field.2)

namespace Module

/-- Size and alignment of a type without fields. -/
def plainLayout (m : Module) : Ty → Nat × Nat
  | .i1 | .i8 => (1, 1)
  | .i16 => (2, 2)
  | .i32 | .f32 => (4, 4)
  | .i64 | .f64 => (8, 8)
  | .ptr => (m.pointerBits / 8, max (m.pointerBits / 8) 1)
  | .void | .struct _ => (0, 1)

/-- Size and alignment, following `depth` levels of nested structs; none if there are more. -/
def layoutWithin (m : Module) : (depth : Nat) → Ty → Option (Nat × Nat)
  | 0, .struct _ => none
  | depth + 1, .struct id => do
    let placed ← (m.structFields id).foldlM (fun placed field => do
      return place placed (← m.layoutWithin depth field)) (0, 1)
    return (roundUp placed.1 placed.2, placed.2)
  | _, t => some (m.plainLayout t)

/-- More levels of recursion than any stack has room for. -/
def deepest : Nat := Nat.pow 2 62

/-- The storage size in bytes and the alignment, at least one. Sizing recurses on the fields without a check
for cycles. Without a cycle there are no more levels than struct types; with one the recursion never ends, and
there is no result. -/
def sizeAlign? (m : Module) (t : Ty) : Option (Nat × Nat) := m.layoutWithin (deepest + m.structs.size + 2) t

/-- The storage size in bytes. For a type that has none the number stands for no size: where a program can
meet such a type, `sizeAlign?` is asked first. -/
def sizeOf (m : Module) (t : Ty) : Nat := ((m.sizeAlign? t).getD (0, 1)).1

/-- The alignment in bytes, at least one, with the same proviso. -/
def alignOf (m : Module) (t : Ty) : Nat := ((m.sizeAlign? t).getD (0, 1)).2

/-- Where a field of a list of fields starts, counted from `offset`; the end if there is no such
field. -/
def offsetIn (m : Module) : List Ty → (field offset : Nat) → Nat
  | [], _, offset => offset
  | t :: _, 0, offset => roundUp offset (m.alignOf t)
  | t :: rest, field + 1, offset =>
    m.offsetIn rest field (roundUp offset (m.alignOf t) + m.sizeOf t)

/-- The byte offset of a field of a struct. -/
def fieldOffset (m : Module) (id : StructId) (field : Nat) : Nat :=
  m.offsetIn (m.structFields id) field 0

/-- The types whose sizes the offset of a field is computed from. -/
def fieldsUpTo (m : Module) (id : StructId) (field : Nat) : List Ty :=
  (m.structFields id).take (field + 1)

end Module

end BlockForge.Ir
