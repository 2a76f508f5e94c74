import BlockForge.Ir.Ty
import BlockForge.Types.Layout

/-!
# How values are represented
-/

namespace BlockForge.Types.Layout

/-- The instruction-level type of a value. References are addresses, and `()` is carried as a zero
byte so that every expression has a value. -/
def irType (l : Layout) : Ty → Ir.Ty
  | .signed w | .unsigned w => (Ir.Ty.int? (l.intBits w)).getD .i64
  | .float .f32 => .f32
  | .float .f64 => .f64
  | .bool => .i1
  | .char => .i32
  | .unit => .i8
  | .string | .record _ | .vector _ | .null => .ptr

/-- The return type of a function; `()` returns nothing. -/
def returnIrType (l : Layout) (t : Ty) : Ir.Ty := if t.isUnit then .void else l.irType t

end BlockForge.Types.Layout
