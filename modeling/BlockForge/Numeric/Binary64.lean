import BlockForge.Numeric.Power

/-!
# Binary64 values as bit patterns

A float is carried as the 64 bits of its IEEE-754 binary64 encoding. Everything that the encoding
alone decides is computed on the bits in exact integer arithmetic: classification, the exact
remainder, conversion from and to integers, and the sign. The four rounded operations go through
the hardware format. A not-a-number operand is handed on (made quiet), the left one first; an
operation that has no value on ordinary operands gives the default not-a-number.
-/

namespace BlockForge.Binary64

/-! ### Fields and classes -/

/-- The sign bit alone. -/
def signMask : UInt64 := 0x8000000000000000

/-- The bit that marks a quiet not-a-number. -/
def quietBit : UInt64 := 0x0008000000000000

/-- The not-a-number that an operation without a value gives. -/
def defaultNaN : UInt64 := 0xfff8000000000000

/-- The eleven exponent bits. -/
def exponent (b : UInt64) : Nat := ((b >>> 52) &&& 0x7ff).toNat

/-- The 52 fraction bits. -/
def fraction (b : UInt64) : Nat := (b &&& 0x000fffffffffffff).toNat

/-- Whether the sign bit is set. -/
def isNegative (b : UInt64) : Bool := b &&& signMask != 0

def isNaN (b : UInt64) : Bool := exponent b == 0x7ff && fraction b != 0

def isInfinite (b : UInt64) : Bool := exponent b == 0x7ff && fraction b == 0

/-- Zero of either sign. -/
def isZero (b : UInt64) : Bool := b &&& ~~~signMask == 0

/-- The magnitude of a finite value as `m * 2 ^ q`, with `m < 2 ^ 53`. -/
def magnitude (b : UInt64) : Nat × Int :=
  if exponent b = 0 then (fraction b, -1074)
  else (fraction b + pow2 52, (exponent b : Int) - 1075)

/-! ### Sign -/

/-- Flips the sign, also of zeros and of a not-a-number. -/
def neg (b : UInt64) : UInt64 := b ^^^ signMask

/-- Gives `b` the sign of `a`. -/
def withSignOf (a b : UInt64) : UInt64 := (a &&& signMask) ||| (b &&& ~~~signMask)

/-! ### Integers -/

/-- The binary64 nearest to a natural number, ties to the even fraction. Carrying out of the
fraction moves to the next exponent by itself. -/
def ofNat (n : Nat) : UInt64 :=
  if n = 0 then 0
  else
    let len := n.log2 + 1
    let top :=
      if len ≤ 53 then n <<< (53 - len)
      else
        let drop := len - 53
        let kept := n >>> drop
        let lost := n % pow2 drop
        let half := pow2 (drop - 1)
        if half < lost ∨ (lost = half ∧ kept % 2 = 1) then kept + 1 else kept
    UInt64.ofNat ((len + 1022) * pow2 52 + (top - pow2 52))

/-- The binary64 nearest to an integer; zero is positive. -/
def ofInt (z : Int) : UInt64 :=
  if z < 0 then neg (ofNat z.natAbs) else ofNat z.natAbs

/-- The integer part of a finite magnitude `m * 2 ^ q`. -/
def floorScaled (m : Nat) (q : Int) : Nat :=
  if 0 ≤ q then m <<< q.toNat else m >>> (-q).toNat

/-- Truncation toward zero, clamped into `lo .. hi`. Infinities clamp to the ends and a
not-a-number becomes zero before clamping. -/
def truncateInto (b : UInt64) (lo hi : Int) : Int :=
  let clamp (z : Int) : Int := if z < lo then lo else if hi < z then hi else z
  if isNaN b then clamp 0
  else if isInfinite b then (if isNegative b then lo else hi)
  else
    let size := floorScaled (magnitude b).1 (magnitude b).2
    clamp (if isNegative b then -(size : Int) else size)

/-! ### Single precision -/

/-- A not-a-number cut to the fraction bits that single precision keeps, and made quiet. -/
def narrowNaN (b : UInt64) : UInt64 := (b ||| quietBit) &&& ~~~(0x1fffffff : UInt64)

/-- The value rounded to single precision, still in the binary64 encoding. -/
def roundSingle (b : UInt64) : UInt64 :=
  if isNaN b then narrowNaN b else (Float.ofBits b).toFloat32.toFloat.toBits

/-- The 32-bit encoding of the value rounded to single precision. -/
def toSingleBits (b : UInt64) : UInt32 :=
  if isNaN b then
    ((b >>> 32) &&& 0x80000000).toUInt32 ||| (0x7f800000 : UInt32) |||
      ((narrowNaN b >>> 29) &&& 0x007fffff).toUInt32
  else (Float.ofBits b).toFloat32.toBits

/-- The value of a 32-bit encoding. -/
def ofSingleBits (s : UInt32) : UInt64 :=
  if s &&& 0x7f800000 == 0x7f800000 && s &&& 0x007fffff != 0 then
    ((s &&& 0x80000000).toUInt64 <<< 32) ||| (0x7ff0000000000000 : UInt64) ||| quietBit |||
      ((s &&& 0x007fffff).toUInt64 <<< 29)
  else (Float32.ofBits s).toFloat.toBits

/-! ### Operations -/

/-- Runs an operation on ordinary operands and settles the not-a-number cases. -/
def combine (f : Float → Float → Float) (a b : UInt64) : UInt64 :=
  if isNaN a then a ||| quietBit
  else if isNaN b then b ||| quietBit
  else
    let r := f (Float.ofBits a) (Float.ofBits b)
    if r.isNaN then defaultNaN else r.toBits

def add (a b : UInt64) : UInt64 := combine (· + ·) a b

def sub (a b : UInt64) : UInt64 := combine (· - ·) a b

def mul (a b : UInt64) : UInt64 := combine (· * ·) a b

def div (a b : UInt64) : UInt64 := combine (· / ·) a b

/-- The binary64 of `n * 2 ^ q` for a value known to be representable. -/
def scaleExact (n : Nat) (q : Int) : UInt64 :=
  if n = 0 then 0
  else
    let len := n.log2 + 1
    -- `n * 2 ^ q = top * 2 ^ e`, where a normal value has `top` of exactly 53 bits
    let e := max (q + len - 53) (-1074)
    let top := if e ≤ q then n <<< (q - e).toNat else n >>> (e - q).toNat
    if top < pow2 52 then UInt64.ofNat top
    else UInt64.ofNat ((e + 1075).toNat * pow2 52 + (top - pow2 52))

/-- The exact remainder of truncating division; it has the sign of the dividend. -/
def rem (a b : UInt64) : UInt64 :=
  if isNaN a then a ||| quietBit
  else if isNaN b then b ||| quietBit
  else if isInfinite a || isZero b then defaultNaN
  else if isInfinite b then a
  else
    let (m, p) := magnitude a
    let (n, q) := magnitude b
    let e := min p q
    let r := (m <<< (p - e).toNat) % (n <<< (q - e).toNat)
    withSignOf a (scaleExact r e)

/-! ### Comparison -/

def eq (a b : UInt64) : Bool := Float.ofBits a == Float.ofBits b

def lt (a b : UInt64) : Bool := Float.ofBits a < Float.ofBits b

def le (a b : UInt64) : Bool := Float.ofBits a ≤ Float.ofBits b

end BlockForge.Binary64
