/-!
# Types of the source language

Scalar types, the record types by name, vectors, and the type of the `null` literal, with their
names and their classification. Records and vectors are nullable references.
-/

namespace BlockForge.Types

/-- Integer widths; `ptr` is as wide as a pointer of the target. -/
inductive IntWidth where
  | w8 | w16 | w32 | w64 | ptr
  deriving DecidableEq, Repr

/-- The width in bits on a target with pointers of `pointerBits`. -/
def IntWidth.bits (pointerBits : Nat) : IntWidth → Nat
  | w8 => 8 | w16 => 16 | w32 => 32 | w64 => 64 | ptr => pointerBits

inductive FloatWidth where
  | f32 | f64
  deriving DecidableEq, Repr

def FloatWidth.bits : FloatWidth → Nat
  | f32 => 32 | f64 => 64

/-- A type. `null` is the type of the `null` literal only. -/
inductive Ty where
  | signed (width : IntWidth)
  | unsigned (width : IntWidth)
  | float (width : FloatWidth)
  | bool
  | char
  | unit
  | string
  | record (name : String)
  | vector (elem : Ty)
  | null
  deriving DecidableEq, Repr, Inhabited

namespace Ty

abbrev i32 : Ty := signed .w32
abbrev usize : Ty := unsigned .ptr
abbrev f32 : Ty := float .f32
abbrev f64 : Ty := float .f64

/-- The built-in types with their names. -/
def primitives : List (String × Ty) :=
  [("i8", signed .w8), ("i16", signed .w16), ("i32", signed .w32), ("i64", signed .w64),
    ("isize", signed .ptr), ("u8", unsigned .w8), ("u16", unsigned .w16), ("u32", unsigned .w32),
    ("u64", unsigned .w64), ("usize", unsigned .ptr), ("f32", f32), ("f64", f64), ("bool", bool),
    ("char", char), ("String", string)]

/-- The built-in type of a name. -/
def primitive? (name : String) : Option Ty := primitives.lookup name

/-- The type as shown in messages. -/
def render : Ty → String
  | signed .w8 => "i8" | signed .w16 => "i16" | signed .w32 => "i32" | signed .w64 => "i64"
  | signed .ptr => "isize"
  | unsigned .w8 => "u8" | unsigned .w16 => "u16" | unsigned .w32 => "u32" | unsigned .w64 => "u64"
  | unsigned .ptr => "usize"
  | float .f32 => "f32" | float .f64 => "f64"
  | bool => "bool"
  | char => "char"
  | unit => "()"
  | string => "String"
  | record name => name
  | vector elem => "Vector<" ++ elem.render ++ ">"
  | null => "null"

/-! ### Classes -/

def isInteger : Ty → Bool
  | signed _ | unsigned _ => true
  | _ => false

def isSignedInt : Ty → Bool
  | signed _ => true
  | _ => false

def isUnsignedInt : Ty → Bool
  | unsigned _ => true
  | _ => false

def isFloat : Ty → Bool
  | float _ => true
  | _ => false

def isNumeric (t : Ty) : Bool := t.isInteger || t.isFloat

def isUnit : Ty → Bool
  | unit => true
  | _ => false

/-- The types that `null` may stand in for. -/
def isNullable : Ty → Bool
  | record _ | vector _ => true
  | _ => false

/-- The types whose values are pointers. -/
def isReference : Ty → Bool
  | string | record _ | vector _ | null => true
  | _ => false

/-- The types with `==` and `!=`. -/
def isEquatable : Ty → Bool
  | unit => false
  | _ => true

/-- The types with `<`, `<=`, `>` and `>=`. -/
def isOrdered : Ty → Bool
  | signed _ | unsigned _ | float _ | char => true
  | _ => false

/-- The types that `as` converts between. -/
def isConvertible : Ty → Bool
  | signed _ | unsigned _ | float _ | char => true
  | _ => false

/-- The element type of a vector. -/
def element? : Ty → Option Ty
  | vector elem => some elem
  | _ => none

def intWidth? : Ty → Option IntWidth
  | signed w | unsigned w => some w
  | _ => none

end Ty

end BlockForge.Types
