import BlockForge.Decimal.Shortest
import BlockForge.Numeric.Binary64

/-!
# The text of a float

Printed instructions and values write a float by its shortest digits: positionally from `0.0001`
up to below `10 ^ 16`, always with a point, and with an exponent outside of that range.
-/

namespace BlockForge.Decimal

/-- The choices that turn significant digits into text. -/
structure Layout where
  /-- The least position of the point that is still written positionally. -/
  leastPoint : Int
  /-- The greatest such position. -/
  greatestPoint : Int
  /-- The mark before a decimal exponent. -/
  exponentMark : String
  infinity : String
  notANumber : String

/-- Positional between `0.0001` and `10 ^ 16`, exponents without a plus sign. -/
def Layout.plain : Layout := ⟨-3, 16, "e", "inf", "NaN"⟩

def zeros (n : Nat) : List Char := List.replicate n '0'

/-- Digits with the point inside, before or after them. -/
def positional (digits : List Char) (point : Int) : List Char :=
  let n := digits.length
  if point ≤ 0 then '0' :: '.' :: zeros (-point).toNat ++ digits
  else if point < n then digits.take point.toNat ++ '.' :: digits.drop point.toNat
  else digits ++ zeros (point.toNat - n) ++ ['.', '0']

/-- One digit before the point, the others behind it, then the exponent. -/
def Layout.scientific (l : Layout) (digits : List Char) (point : Int) : List Char :=
  let fraction := match digits.drop 1 with
    | [] => []
    | rest => '.' :: rest
  digits.take 1 ++ fraction ++ l.exponentMark.toList ++ (toString (point - 1)).toList

/-- The text of a finite positive value from its significant digits. -/
def Layout.digits (l : Layout) (d : Digits) : List Char :=
  let cs := Nat.toDigits 10 d.coefficient
  if l.leastPoint ≤ d.point ∧ d.point ≤ l.greatestPoint then positional cs d.point
  else l.scientific cs d.point

/-- The text of the binary64 value with the given bits. -/
def Layout.render (l : Layout) (bits : UInt64) : String :=
  if Binary64.isNaN bits then l.notANumber
  else
    let sign := if Binary64.isNegative bits then "-" else ""
    if Binary64.isInfinite bits then sign ++ l.infinity
    else if Binary64.isZero bits then sign ++ "0.0"
    else
      let (m, q) := Binary64.magnitude bits
      sign ++ String.ofList (l.digits (shortest m q))

end BlockForge.Decimal
