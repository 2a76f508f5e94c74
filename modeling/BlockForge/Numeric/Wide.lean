import BlockForge.Numeric.Power

/-!
# Signed 128-bit range arithmetic

Bounds of integer types are computed in the signed 128-bit range. `wrap` reduces an integer into
that range, and `shiftOne` is the power of two obtained by shifting one left there: the amount
counts modulo 128, and `2 ^ 127` is the least value of the range.
-/

namespace BlockForge.Wide

/-- The signed 128-bit integer congruent to `z`. -/
def wrap (z : Int) : Int := z.bmod (pow2 128)

/-- The greatest value of the range. -/
def max : Int := pow2 127 - 1

/-- The least value of the range. -/
def min : Int := -pow2 127

/-- Whether `z` lies in the signed 128-bit range. -/
def inRange (z : Int) : Bool := min ≤ z && z ≤ max

/-- One shifted left by `n`, the amount counted modulo 128. -/
def shiftOne (n : Nat) : Int := wrap (pow2 (n % 128))

/-- The amount one less than a 32-bit width: below zero it restarts at the top. -/
def widthPred (bits : Nat) : Nat := if bits = 0 then 0xffffffff else bits - 1

/-- Least and greatest value of a signed integer of `bits` bits. -/
def signedRange (bits : Nat) : Int × Int :=
  let half := shiftOne (widthPred bits)
  (wrap (-half), wrap (half - 1))

/-- Least and greatest value of an unsigned integer of `bits` bits. -/
def unsignedRange (bits : Nat) : Int × Int := (0, wrap (shiftOne bits - 1))

/-- Bitwise combination of two integers of the range through their 128-bit patterns. -/
def bitwise (f : BitVec 128 → BitVec 128 → BitVec 128) (a b : Int) : Int :=
  (f (BitVec.ofInt 128 a) (BitVec.ofInt 128 b)).toInt

end BlockForge.Wide
