import CallScript.Decimal.Shortest

/-!
# Number notation

How a double is written: which powers of ten are written positionally, whether an integer keeps a
fraction, and how an exponent and the values that are no numbers look. The one layout of the language
is `Layout.literal`.
-/

namespace CallScript.Decimal

structure Layout where
  /-- The least power of ten of a first digit that is written positionally. -/
  lowest : Int
  /-- The greatest one. -/
  highest : Int
  /-- Written after an integer in positional notation. -/
  integerMark : String
  /-- The least number of digits of an exponent. -/
  exponentDigits : Nat
  nan : String
  infinity : String

/-- Digits with a point after the first `whole` of them, and zeros where the digits do not reach. -/
def positional (layout : Layout) (digits : List Char) (whole : Int) : List Char :=
  if whole ≤ 0 then '0' :: '.' :: (List.replicate (-whole).toNat '0' ++ digits)
  else
    let count := whole.toNat
    if digits.length ≤ count then
      digits ++ List.replicate (count - digits.length) '0' ++ layout.integerMark.toList
    else digits.take count ++ '.' :: digits.drop count

def exponentText (layout : Layout) (power : Int) : List Char :=
  let digits := Nat.toDigits 10 power.natAbs
  (if power < 0 then '-' else '+') ::
    (List.replicate (layout.exponentDigits - digits.length) '0' ++ digits)

/-- One digit, a point if more digits follow, and the power of ten of the first one. -/
def scientific (layout : Layout) (digits : List Char) (power : Int) : List Char :=
  match digits with
  | [] => []
  | [digit] => digit :: 'e' :: exponentText layout power
  | digit :: more => digit :: '.' :: (more ++ 'e' :: exponentText layout power)

def Layout.decimal (layout : Layout) (d : Fraction) : List Char :=
  let digits := Nat.toDigits 10 d.digits
  let power := if d.digits = 0 then 0 else (digits.length : Int) - 1 + d.exponent
  if layout.lowest ≤ power ∧ power ≤ layout.highest then
    positional layout digits (power + 1)
  else scientific layout digits power

def Layout.write (layout : Layout) : Dyadic → List Char
  | .nan => layout.nan.toList
  | .infinite negative => signed negative layout.infinity.toList
  | .finite negative mantissa exponent =>
    signed negative (layout.decimal
      (if mantissa = 0 then ⟨0, 0⟩ else shortest mantissa exponent))
where
  signed (negative : Bool) (text : List Char) : List Char :=
    if negative then '-' :: text else text

/-- Numbers are written positionally from `0.0001` to below `10 ^ 16`, with `.0` after an integer and
two digits of exponent at least. -/
def Layout.literal : Layout where
  lowest := -4
  highest := 15
  integerMark := ".0"
  exponentDigits := 2
  nan := "nan"
  infinity := "inf"

def integerText (n : Int) : List Char :=
  if n < 0 then '-' :: Nat.toDigits 10 n.natAbs else Nat.toDigits 10 n.natAbs

def numeral (x : Float) : String :=
  String.ofList (Layout.literal.write (.ofFloat x))

end CallScript.Decimal
