import BlockForge.Types.Layout

/-!
# Literal types

A numeric literal has no type of its own. The first context that supplies a type binds it; a
literal that nothing binds takes the default type of its kind.
-/

namespace BlockForge.Types

/-- The kind of an unbound literal; an integer comes with its value. -/
inductive LitKind where
  | int (value : Int)
  | float
  deriving DecidableEq, Repr

namespace LitKind

def defaultType : LitKind → Ty
  | int _ => .i32
  | float => .f64

/-- The kind as named in messages. -/
def describe : LitKind → String
  | int _ => "integer literal"
  | float => "float literal"

/-- Two unbound literals meet if they are of one kind. -/
def unify? : LitKind → LitKind → Option LitKind
  | int v, int _ => some (int v)
  | float, float => some float
  | _, _ => none

end LitKind

/-- Why a literal cannot take a type. -/
inductive BindError where
  | incompatible
  | outOfRange
  deriving DecidableEq, Repr

/-- Binds a literal. Integer literals take integer types whose range holds the value, and any float
type; float literals take float types. -/
def LitKind.bind (l : Layout) (kind : LitKind) (target : Ty) : Except BindError Ty :=
  match kind, target with
  | _, .float _ => .ok target
  | .float, _ => .error .incompatible
  | .int v, _ =>
    match l.intRange? target with
    | none => .error .incompatible
    | some (lo, hi) => if lo ≤ v ∧ v ≤ hi then .ok target else .error .outOfRange

/-- The type state of a literal. -/
inductive LitType where
  | unbound (kind : LitKind)
  | bound (type : Ty)
  deriving DecidableEq, Repr

namespace LitType

/-- Binds an unbound literal; a bound one keeps its type. -/
def bind (l : Layout) (s : LitType) (target : Ty) : Except BindError LitType :=
  match s with
  | unbound kind => (kind.bind l target).map bound
  | bound t => .ok (bound t)

/-- The type the literal is emitted at. -/
def resolve : LitType → Ty
  | unbound kind => kind.defaultType
  | bound t => t

end LitType

end BlockForge.Types
