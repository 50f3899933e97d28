import CallScript.Decimal.Dyadic

/-!
# Shortest decimals

The shortest decimal that reads back as a given double, and of those the nearest one. The reals that
round to `m * 2 ^ q` form an interval around it, whose ends belong to it exactly if `m` is even.
For 1, 2, … 17 digits the two neighbours of the value on that decimal grid are tried; the first grid
with a neighbour in the interval wins, of two such neighbours the nearer one, and of two equally near
ones the even one. Should no grid do, the value's exact decimal expansion is taken, so that what is
chosen lies in the interval in every case.
-/

namespace CallScript.Decimal

/-- A decimal fraction, `digits * 10 ^ exponent`. -/
structure Fraction where
  digits : Nat
  exponent : Int
  deriving DecidableEq, Repr

/-- The number of decimal digits; zero has none. -/
def digitCount (n : Nat) : Nat :=
  if n = 0 then 0 else (Nat.toDigits 10 n).length

/-- A double's value and the ends of the interval that rounds to it, as integer multiples of
`2 ^ unit`. -/
structure Interval where
  low : Nat
  value : Nat
  high : Nat
  unit : Int
  /-- The ends belong to the interval. -/
  closed : Bool
  deriving DecidableEq, Repr

namespace Interval

/-- The interval around `mantissa * 2 ^ exponent`. Below a power of two the doubles stand twice as
close, so the interval reaches down half as far there. -/
def around (mantissa : Nat) (exponent : Int) : Interval where
  low := if mantissa = 2 ^ 52 ∧ -1074 < exponent then 4 * mantissa - 1 else 4 * mantissa - 2
  value := 4 * mantissa
  high := 4 * mantissa + 2
  unit := exponent - 2
  closed := mantissa % 2 == 0

/-- Compares `n * 2 ^ unit` with `d * 10 ^ k` after clearing both denominators. -/
def compareScaled (n : Nat) (unit : Int) (d : Nat) (k : Int) : Ordering :=
  compare (n * 2 ^ unit.toNat * 10 ^ (-k).toNat) (d * 10 ^ k.toNat * 2 ^ (-unit).toNat)

/-- The decimal lies in the interval, so it reads back as the double. -/
def readsBack (i : Interval) (d : Fraction) : Bool :=
  match compareScaled i.low i.unit d.digits d.exponent,
      compareScaled i.high i.unit d.digits d.exponent with
  | .lt, .gt => true
  | .eq, .gt => i.closed
  | .lt, .eq => i.closed
  | _, _ => false

def leadingPower (i : Interval) : Int :=
  let numerator := i.value * 2 ^ i.unit.toNat
  let denominator := 2 ^ (-i.unit).toNat
  if denominator ≤ numerator then (digitCount (numerator / denominator) : Int) - 1
  else -(digitCount ((denominator - 1) / numerator))

/-- The neighbours of the value on the grid of multiples of `10 ^ k`, and where the value lies
between them. -/
def neighbours (i : Interval) (k : Int) : Fraction × Fraction × Ordering :=
  let numerator := i.value * 2 ^ i.unit.toNat * 10 ^ (-k).toNat
  let denominator := 2 ^ (-i.unit).toNat * 10 ^ k.toNat
  let below := numerator / denominator
  let position := compare (2 * (numerator - below * denominator)) denominator
  (⟨below, k⟩, ⟨below + 1, k⟩, position)

/-- The nearest decimal with a given number of digits that reads back, if there is one. -/
def onGrid (i : Interval) (count : Nat) : Option Fraction :=
  let (below, above, position) := i.neighbours (i.leadingPower + 1 - count)
  match i.readsBack below, i.readsBack above with
  | true, true =>
    match position with
    | .lt => some below
    | .gt => some above
    | .eq => some (if below.digits % 2 = 0 then below else above)
  | true, false => some below
  | false, true => some above
  | false, false => none

/-- The value itself: a negative power of two is a power of five over one of ten. -/
def exact (i : Interval) : Fraction :=
  ⟨i.value * 2 ^ i.unit.toNat * 5 ^ (-i.unit).toNat, min i.unit 0⟩

def shortest (i : Interval) : Fraction :=
  ((List.range' 1 17).findSome? i.onGrid).getD i.exact

end Interval

def Fraction.stripZeros : (fuel : Nat) → Fraction → Fraction
  | 0, d => d
  | fuel + 1, d =>
    if d.digits ≠ 0 ∧ d.digits % 10 = 0 then stripZeros fuel ⟨d.digits / 10, d.exponent + 1⟩ else d

/-- The shortest decimal for `mantissa * 2 ^ exponent`, without zeros at its end. -/
def shortest (mantissa : Nat) (exponent : Int) : Fraction :=
  let d := (Interval.around mantissa exponent).shortest
  d.stripZeros (digitCount d.digits)

end CallScript.Decimal
