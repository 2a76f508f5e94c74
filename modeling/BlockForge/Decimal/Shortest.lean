import BlockForge.Numeric.Power

/-!
# Shortest decimals

A positive binary value `m * 2 ^ q` stands for every real that rounds to it. `shortest` finds the
decimal with the fewest significant digits in that interval; among those of equal length it takes
the nearest to the value, and of two equally near the upper one. All tests are exact comparisons
of natural numbers.
-/

namespace BlockForge.Decimal

/-- A decimal `0.d₁d₂… * 10 ^ point` given by its significant digits, read as one number. -/
structure Digits where
  /-- The significant digits as one natural number, without trailing zeros. -/
  coefficient : Nat
  /-- How many digits stand before the decimal point. -/
  point : Int
  deriving DecidableEq, Repr

/-- A positive rational, kept as a fraction. -/
structure Ratio where
  num : Nat
  den : Nat

/-- The rational `n * 2 ^ q`. -/
def Ratio.scaled (n : Nat) (q : Int) : Ratio :=
  if 0 ≤ q then ⟨n * pow2 q.toNat, 1⟩ else ⟨n, pow2 (-q).toNat⟩

/-- The number of decimal digits of a natural number; zero has none. -/
def digitCount (n : Nat) : Nat := if n = 0 then 0 else (Nat.toDigits 10 n).length

/-- The position of the decimal point: the `k` with `10 ^ (k - 1) ≤ r < 10 ^ k`. -/
def Ratio.point (r : Ratio) : Int :=
  if r.den ≤ r.num then digitCount (r.num / r.den)
  else 1 - (digitCount ((r.den - 1) / r.num) : Int)

/-- The reals that round to a binary value: between `lo` and `hi`, in units of a quarter of the last
place, with the ends included when the value's significand is even. -/
structure Interval where
  lo : Nat
  value : Nat
  hi : Nat
  unit : Int
  closed : Bool

/-- The interval of `m * 2 ^ q`. Just above a power of two the lower neighbour is half as far, unless
the value is in the lowest binade. -/
def Interval.of (m : Nat) (q : Int) : Interval :=
  let lower := if m = pow2 52 ∧ q ≠ -1074 then 4 * m - 1 else 4 * m - 2
  ⟨lower, 4 * m, 4 * m + 2, q - 2, m % 2 == 0⟩

/-- The points `c * 10 ^ e` and `n * 2 ^ q` brought to one denominator. -/
def onOneScale (c : Nat) (e : Int) (n : Nat) (q : Int) : Nat × Nat :=
  let a := c * pow10 e.toNat * pow2 (-q).toNat
  let b := n * pow2 q.toNat * pow10 (-e).toNat
  (a, b)

/-- Whether the decimal `c * 10 ^ e` lies in the interval. -/
def Interval.contains (i : Interval) (c : Nat) (e : Int) : Bool :=
  let (a, l) := onOneScale c e i.lo i.unit
  let (b, h) := onOneScale c e i.hi i.unit
  if i.closed then l ≤ a && b ≤ h else l < a && b < h

/-- The candidate on the grid `10 ^ e`: the value's lower or upper neighbour, whichever lies in the
interval, the nearer if both do. -/
def Interval.onGrid? (i : Interval) (e : Int) : Option Nat :=
  let r := Ratio.scaled i.value i.unit
  let below := (r.num * pow10 (-e).toNat) / (r.den * pow10 e.toNat)
  let above := below + 1
  match i.contains below e, i.contains above e with
  | false, false => none
  | true, false => some below
  | false, true => some above
  | true, true =>
    let (a, v) := onOneScale below e i.value i.unit
    let (b, w) := onOneScale above e i.value i.unit
    if v - a < b - w then some below else some above

/-- Drops trailing zeros; `fuel` bounds their number. -/
def stripZeros : (fuel : Nat) → Nat → Nat
  | 0, c => c
  | fuel + 1, c => if c % 10 = 0 then stripZeros fuel (c / 10) else c

/-- Tries grids of `n`, `n + 1`, … digits until one has a candidate. -/
def search (i : Interval) (point : Int) : (tries : Nat) → (n : Nat) → Digits
  | 0, _ => ⟨0, point⟩
  | tries + 1, n =>
    let e := point - n
    match i.onGrid? e with
    | some c => ⟨stripZeros 17 c, (digitCount c : Int) + e⟩
    | none => search i point tries (n + 1)

/-- The shortest decimal that reads back as `m * 2 ^ q`, for `0 < m < 2 ^ 53`. Seventeen digits are
always enough. -/
def shortest (m : Nat) (q : Int) : Digits :=
  let i := Interval.of m q
  search i (Ratio.scaled i.value i.unit).point 17 1

end BlockForge.Decimal
