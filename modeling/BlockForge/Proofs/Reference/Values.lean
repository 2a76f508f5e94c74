import BlockForge.Proofs.Reference.Integers
import BlockForge.Lowering.Sequence

/-!
# Values and operators

The values of the source language and what its operators do to them. Integers are mathematical integers in
the range of their type; an operator computes exactly and wraps at the width. Floats are the bits of a
binary64, rounded after each operation on single precision.
-/

namespace BlockForge.Reference

open Source (BinaryOp)
open BlockForge.Types (Layout Ty)

/-- A value. Characters are integers; records and vectors are references to objects. -/
inductive Value where
  | int (n : Int)
  | float (bits : UInt64)
  | bool (b : Bool)
  | unit
  | null
  | text (content : String)
  | object (id : Nat)
  deriving DecidableEq, Repr, Inhabited

/-- A value with its type. -/
structure Datum where
  value : Value
  type : Ty
  deriving DecidableEq, Repr, Inhabited

def bitwiseBool (op : BinaryOp) (a b : Bool) : Bool :=
  match op with
  | .bitAnd => a && b
  | .bitOr => a || b
  | _ => a != b

/-! ### Floats -/

/-- Rounds a result to the precision of its type. -/
def roundAt (t : Ty) (bits : UInt64) : UInt64 := if t = .f32 then Binary64.roundSingle bits else bits

/-- `mod` adds the divisor to a remainder other than zero whose sign differs. -/
def floatArithmetic (op : BinaryOp) (t : Ty) (a b : UInt64) : UInt64 :=
  match op with
  | .add => roundAt t (Binary64.add a b)
  | .sub => roundAt t (Binary64.sub a b)
  | .mul => roundAt t (Binary64.mul a b)
  | .div => roundAt t (Binary64.div a b)
  | .rem => roundAt t (Binary64.rem a b)
  | _ =>
    let r := roundAt t (Binary64.rem a b)
    let zero := roundAt t 0
    if !Binary64.eq r zero && (Binary64.lt r zero != Binary64.lt b zero) then
      roundAt t (Binary64.add r b)
    else r

def orderFloat (op : BinaryOp) (a b : UInt64) : Bool :=
  match op with
  | .lt => Binary64.lt a b
  | .le => Binary64.le a b
  | .gt => Binary64.lt b a
  | _ => Binary64.le b a

/-! ### Conversion and storage -/

/-- `v as target`, where there is such a conversion. Integers wrap into the target, floats saturate. -/
def convertTo (l : Layout) (source target : Ty) (v : Value) : Option Value :=
  if source = target then some v
  else
    match v, l.intShape? source, l.intShape? target with
    | .int n, some _, some (bits, signed) => some (.int (wrapInt signed bits n))
    | .int n, some (_, signed), none =>
      some (.float (roundAt target (if signed then Binary64.ofInt n else Binary64.ofNat n.toNat)))
    | .float f, none, some (bits, signed) =>
      let (lo, hi) : Int × Int :=
        if signed then (-pow2 (bits - 1), pow2 (bits - 1) - 1) else (0, pow2 bits - 1)
      some (.int (wrapInt signed bits (Binary64.truncateInto f lo hi)))
    | .float f, none, none => some (.float (roundAt target f))
    | _, _, _ => none

/-- A value as a variable of the type keeps it: single precision rounds. -/
def keptAs (t : Ty) : Value → Value
  | .float bits =>
    .float (if t = .f32 then Binary64.ofSingleBits (Binary64.toSingleBits bits) else bits)
  | v => v

/-- The bytes that a value of a type takes. -/
def cellSize (l : Layout) : Ty → Nat
  | .signed w | .unsigned w => l.intBits w / 8
  | .float w => w.bits / 8
  | .bool | .unit => 1
  | .char => 4
  | .string | .record _ | .vector _ | .null => l.pointerBytes

end BlockForge.Reference
