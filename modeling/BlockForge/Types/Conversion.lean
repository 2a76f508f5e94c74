import BlockForge.Types.Layout

/-!
# Conversions

What `as` does between two types, and which values may be stored without it.
-/

namespace BlockForge.Types

/-- The machine operation of a conversion. `signed` is the signedness of the integer side: of the
source when widening or going to a float, of the target when coming from one. -/
inductive CastKind where
  | identity
  | intExtend (signed : Bool)
  | intTruncate
  | intToFloat (signed : Bool)
  | floatToInt (signed : Bool)
  | floatExtend
  | floatTruncate
  deriving DecidableEq, Repr

/-- Width and signedness of a type with an integer representation; characters are 32-bit unsigned. -/
def Layout.intShape? (l : Layout) : Ty → Option (Nat × Bool)
  | .signed w => some (l.intBits w, true)
  | .unsigned w => some (l.intBits w, false)
  | .char => some (32, false)
  | _ => none

/-- The conversion of integer representations by their widths. -/
def CastKind.betweenInts (source target : Nat) (signed : Bool) : CastKind :=
  if source = target then identity else if source < target then intExtend signed else intTruncate

/-- Classifies `from as to`; `none` if there is no such conversion. Equal types convert by identity,
and characters convert only to and from integers. -/
def Layout.classifyCast? (l : Layout) (source target : Ty) : Option CastKind :=
  if source = target then some .identity
  else
    match source, target with
    | .char, .float _ | .float _, .char => none
    | .float a, .float b => some (if a.bits < b.bits then .floatExtend else .floatTruncate)
    | .float _, t => (l.intShape? t).map fun s => .floatToInt s.2
    | t, .float _ => (l.intShape? t).map fun s => .intToFloat s.2
    | s, t =>
      match l.intShape? s, l.intShape? t with
      | some (sb, signed), some (tb, _) => some (.betweenInts sb tb signed)
      | _, _ => none

/-- Whether a value may be stored without `as`: equal types, or `null` for a nullable one. -/
def assignable (value target : Ty) : Bool :=
  value == target || (value == .null && target.isNullable)

end BlockForge.Types
