import BlockForge.Ir.Builder
import BlockForge.Source.Operator
import BlockForge.Types.Conversion

/-!
# Instruction sequences of the operators

What each operator emits once its operands are known to fit. Signed and float `mod` adjust the
remainder by the divisor when it is not zero and its sign differs from the divisor's.
-/

namespace BlockForge.Lowering

open Ir (Emit FloatPred IntPred ValueId)
open Source (BinaryOp)
open BlockForge.Types (CastKind Ty)

/-- `mod` on signed integers. -/
def emitSignedMod (ir : Ir.Ty) (a b : ValueId) : Emit ValueId := do
  let rem ← Emit.binary .srem a b "rem"
  let zero ← Emit.constInt ir 0
  let nonzero ← Emit.icmp .ne rem zero "rem.nz"
  let remNeg ← Emit.icmp .slt rem zero "rem.neg"
  let divNeg ← Emit.icmp .slt b zero "div.neg"
  let differ ← Emit.binary .xor remNeg divNeg "sign.differ"
  let adjust ← Emit.binary .and nonzero differ "mod.adjust"
  let fixed ← Emit.binary .add rem b "rem.fixed"
  Emit.select adjust fixed rem "mod"

/-- `mod` on floats; a zero remainder of either sign stays as it is. -/
def emitFloatMod (ir : Ir.Ty) (a b : ValueId) : Emit ValueId := do
  let rem ← Emit.binary .frem a b "rem"
  let zero ← Emit.constFloat ir 0
  let nonzero ← Emit.fcmp .une rem zero "rem.nz"
  let remNeg ← Emit.fcmp .olt rem zero "rem.neg"
  let divNeg ← Emit.fcmp .olt b zero "div.neg"
  let differ ← Emit.binary .xor remNeg divNeg "sign.differ"
  let adjust ← Emit.binary .and nonzero differ "mod.adjust"
  let fixed ← Emit.binary .fadd rem b "rem.fixed"
  Emit.select adjust fixed rem "mod"

/-- An arithmetic operator on two values of one numeric type, represented as `ir`; `none` for other
operators. -/
def emitArithmetic (op : BinaryOp) (t : Ty) (ir : Ir.Ty) (a b : ValueId) :
    Emit (Option ValueId) :=
  let pick (float signed unsigned : Ir.BinOp) : Ir.BinOp :=
    if t.isFloat then float else if t.isSignedInt then signed else unsigned
  match op with
  | .add => some <$> Emit.binary (pick .fadd .add .add) a b "add"
  | .sub => some <$> Emit.binary (pick .fsub .sub .sub) a b "sub"
  | .mul => some <$> Emit.binary (pick .fmul .mul .mul) a b "mul"
  | .div => some <$> Emit.binary (pick .fdiv .sdiv .udiv) a b "div"
  | .rem => some <$> Emit.binary (pick .frem .srem .urem) a b "rem"
  | .mod =>
    if t.isFloat then some <$> emitFloatMod ir a b
    else if t.isSignedInt then some <$> emitSignedMod ir a b
    else some <$> Emit.binary .urem a b "mod"
  | _ => pure none

/-- The predicate of an ordering on floats. -/
def orderingFloatPred : BinaryOp → FloatPred
  | .lt => .olt
  | .le => .ole
  | .gt => .ogt
  | _ => .oge

/-- The predicate of an ordering on integers. -/
def orderingIntPred (op : BinaryOp) (signed : Bool) : IntPred :=
  match op, signed with
  | .lt, true => .slt
  | .le, true => .sle
  | .gt, true => .sgt
  | _, true => .sge
  | .lt, false => .ult
  | .le, false => .ule
  | .gt, false => .ugt
  | _, false => .uge

/-- An ordering of two values of one ordered type. -/
def emitOrdering (op : BinaryOp) (t : Ty) (a b : ValueId) : Emit ValueId :=
  if t.isFloat then Emit.fcmp (orderingFloatPred op) a b "cmp"
  else Emit.icmp (orderingIntPred op t.isSignedInt) a b "cmp"

/-- An equality test, or its opposite, of two values represented like `t`. -/
def emitEquality (equal : Bool) (t : Ty) (a b : ValueId) : Emit ValueId :=
  if t.isFloat then Emit.fcmp (if equal then .oeq else .une) a b "cmp"
  else Emit.icmp (if equal then .eq else .ne) a b "cmp"

/-- A shift; the amount is first brought to the width of the shifted value. -/
def emitShift (op : BinaryOp) (t : Ty) (ir : Ir.Ty) (a amount : ValueId) (amountSigned : Bool) :
    Emit ValueId := do
  let amount ← Emit.intResize amount ir amountSigned "shamt"
  let bin : Ir.BinOp :=
    if op = .shl then .shl else if t.isSignedInt then .ashr else .lshr
  Emit.binary bin a amount "shift"

/-- A bitwise operator on two values of one type. -/
def emitBitwise (op : BinaryOp) (a b : ValueId) : Emit ValueId :=
  match op with
  | .bitAnd => Emit.binary .and a b "and"
  | .bitOr => Emit.binary .or a b "or"
  | _ => Emit.binary .xor a b "xor"

/-- A conversion to the representation `ir`. -/
def emitCast (kind : CastKind) (v : ValueId) (ir : Ir.Ty) : Emit ValueId :=
  match kind with
  | .identity => pure v
  | .intExtend signed => Emit.cast (if signed then .sext else .zext) v ir "conv"
  | .intTruncate => Emit.cast .trunc v ir "conv"
  | .intToFloat signed => Emit.cast (if signed then .sitofp else .uitofp) v ir "conv"
  | .floatToInt signed => Emit.cast (if signed then .fptosi else .fptoui) v ir "conv"
  | .floatExtend => Emit.cast .fpext v ir "conv"
  | .floatTruncate => Emit.cast .fptrunc v ir "conv"

end BlockForge.Lowering
