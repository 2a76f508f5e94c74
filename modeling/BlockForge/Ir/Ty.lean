import BlockForge.Ir.Id

/-!
# Instruction-level types
-/

namespace BlockForge.Ir

/-- The type of a value. `void` occurs only as a return type. -/
inductive Ty where
  | i1 | i8 | i16 | i32 | i64
  | f32 | f64
  | ptr
  | void
  | struct (id : StructId)
  deriving DecidableEq, Repr, Inhabited

namespace Ty

/-- The integer type of exactly `bits` bits. -/
def int? (bits : Nat) : Option Ty :=
  match bits with
  | 1 => some i1
  | 8 => some i8
  | 16 => some i16
  | 32 => some i32
  | 64 => some i64
  | _ => none

/-- The width of an integer type. -/
def intBits? : Ty → Option Nat
  | i1 => some 1
  | i8 => some 8
  | i16 => some 16
  | i32 => some 32
  | i64 => some 64
  | _ => none

def isInt (t : Ty) : Bool := t.intBits?.isSome

def isFloat : Ty → Bool
  | f32 | f64 => true
  | _ => false

def isPtr : Ty → Bool
  | ptr => true
  | _ => false

/-- The type as shown in messages. -/
def render : Ty → String
  | i1 => "I1" | i8 => "I8" | i16 => "I16" | i32 => "I32" | i64 => "I64"
  | f32 => "F32" | f64 => "F64"
  | ptr => "Ptr"
  | void => "Void"
  | struct id => "Struct(" ++ id.render ++ ")"

theorem int?_intBits? {t : Ty} {bits : Nat} (h : t.intBits? = some bits) : int? bits = some t := by
  cases t <;> simp_all [intBits?, int?] <;> subst h <;> rfl

end Ty

/-- A struct type: its name and the types of its fields, laid out in order. -/
structure StructType where
  name : String
  fields : List Ty
  deriving Repr, Inhabited

end BlockForge.Ir
