import BlockForge.Numeric.Power
import BlockForge.Machine.Fault

/-!
# Arithmetic of the machine

Integer operations work on words at a stated width and mask their result; what the upper bits of the
operands hold matters only to unsigned division and comparison, which read the whole word. Float
operations round to the precision of their type. Conversions from floats saturate.
-/

namespace BlockForge.Machine

open Ir (BinOp CastOp FloatPred IntPred Ty)

/-- The width of an integer operation; addresses are 64 bits wide. -/
def opBits (t : Ty) : Except Fault Nat :=
  match t with
  | .ptr => .ok 64
  | t =>
    match t.intBits? with
    | some bits => .ok bits
    | none => .error (.malformed (.intOperationOn t))

/-- An integer operation before masking; `none` on division by zero. Shifts by the width or more give
zero, or the sign for an arithmetic right shift. -/
def intRaw (op : BinOp) (bits : Nat) (a b : UInt64) : Option UInt64 :=
  let sa := Word.signExtend a bits
  let sb := Word.signExtend b bits
  match op with
  | .add => some (a + b)
  | .sub => some (a - b)
  | .mul => some (a * b)
  | .sdiv => if sb = 0 then none else some (sa / sb).toUInt64
  | .udiv => if b = 0 then none else some (a / b)
  | .srem => if sb = 0 then none else some (sa % sb).toUInt64
  | .urem => if b = 0 then none else some (a % b)
  | .and => some (a &&& b)
  | .or => some (a ||| b)
  | .xor => some (a ^^^ b)
  | .shl => some (if b.toNat < bits then a <<< b else 0)
  | .lshr => some (if b.toNat < bits then a >>> b else 0)
  | .ashr => some (sa >>> (Int64.ofNat (min b.toNat (bits - 1)))).toUInt64
  | .fadd | .fsub | .fmul | .fdiv | .frem => some a

/-- An integer operation at a width. -/
def intBinary (op : BinOp) (bits : Nat) (a b : UInt64) : Option UInt64 :=
  (intRaw op bits a b).map fun w => Word.mask w bits

def intCompare (pred : IntPred) (bits : Nat) (a b : UInt64) : Bool :=
  let sa := Word.signExtend a bits
  let sb := Word.signExtend b bits
  match pred with
  | .eq => a == b
  | .ne => a != b
  | .slt => sa < sb
  | .sle => sa ≤ sb
  | .sgt => sb < sa
  | .sge => sb ≤ sa
  | .ult => a < b
  | .ule => a ≤ b
  | .ugt => b < a
  | .uge => b ≤ a

/-- Rounds to single precision if the type is that. -/
def roundTo (t : Ty) (bits : UInt64) : UInt64 :=
  if t = .f32 then Binary64.roundSingle bits else bits

/-- A float operation; the others have no float value. -/
def floatBinary (op : BinOp) (a b : UInt64) : UInt64 :=
  match op with
  | .fadd => Binary64.add a b
  | .fsub => Binary64.sub a b
  | .fmul => Binary64.mul a b
  | .fdiv => Binary64.div a b
  | .frem => Binary64.rem a b
  | _ => Binary64.neg Binary64.defaultNaN

def floatCompare (pred : FloatPred) (a b : UInt64) : Bool :=
  match pred with
  | .oeq => Binary64.eq a b
  | .une => !Binary64.eq a b
  | .olt => Binary64.lt a b
  | .ole => Binary64.le a b
  | .ogt => Binary64.lt b a
  | .oge => Binary64.le b a

/-- A float as an integer of the given width: truncated, and clamped to the range. -/
def floatToInt (f : UInt64) (bits : Nat) (signed : Bool) : UInt64 :=
  let (lo, hi) : Int × Int :=
    if signed then (-pow2 (bits - 1), pow2 (bits - 1) - 1) else (0, pow2 bits - 1)
  Word.mask (Word.ofInt (Binary64.truncateInto f lo hi)) bits

/-- A conversion from type `source` to type `target`. -/
def convert (op : CastOp) (source target : Ty) (v : Val) : Except Fault Val :=
  match op with
  | .trunc => do
    let w ← v.asInt
    let bits ← opBits target
    pure (.int (Word.mask w bits))
  | .zext => do
    let w ← v.asInt
    pure (.int w)
  | .sext => do
    let bits ← opBits source
    let wide ← v.asSigned bits
    let bits ← opBits target
    pure (.int (Word.mask wide.toUInt64 bits))
  | .sitofp => do
    let bits ← opBits source
    let wide ← v.asSigned bits
    pure (.float (roundTo target (Binary64.ofInt wide.toInt)))
  | .uitofp => do
    let w ← v.asInt
    pure (.float (roundTo target (Binary64.ofNat w.toNat)))
  | .fptosi => do
    let f ← v.asFloat
    let bits ← opBits target
    pure (.int (floatToInt f bits true))
  | .fptoui => do
    let f ← v.asFloat
    let bits ← opBits target
    pure (.int (floatToInt f bits false))
  | .fpext => do
    let f ← v.asFloat
    pure (.float f)
  | .fptrunc => do
    let f ← v.asFloat
    pure (.float (roundTo target f))

end BlockForge.Machine
