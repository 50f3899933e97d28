import CallScript.Decimal.Dyadic

/-!
# Nearest doubles

The double nearest to a natural number, of two equally near ones the one with the even mantissa, and
infinity for a number too large for doubles. The bit pattern is computed in natural numbers: the top
bit of the number gives the exponent, the fifty-three bits from there on the mantissa, and a mantissa
that is rounded up to the next power of two carries into the exponent by itself.
-/

namespace CallScript.Decimal

/-- A quotient, rounded to the nearest integer; a tie goes to the even one. -/
def roundQuotient (n d : Nat) : Nat :=
  let below := n / d
  match compare (2 * (n % d)) d with
  | .lt => below
  | .eq => below + below % 2
  | .gt => below + 1

/-- The bit pattern of infinity. No finite double has a greater one. -/
def infinityBits : Nat :=
  2047 * 2 ^ 52

/-- The bit pattern of the double nearest to a number. -/
def nearestBits (n : Nat) : Nat :=
  if n = 0 then 0
  else
    let top := n.log2
    let mantissa := if top ≤ 52 then n * 2 ^ (52 - top) else roundQuotient n (2 ^ (top - 52))
    min ((top + 1022) * 2 ^ 52 + mantissa) infinityBits

def nearest (n : Nat) : Float :=
  Float.ofBits (UInt64.ofNat (nearestBits n))

theorem nearestBits_le (n : Nat) : nearestBits n ≤ infinityBits := by
  unfold nearestBits
  split
  · exact Nat.zero_le _
  · exact Nat.min_le_right _ _

theorem roundQuotient_mul {d : Nat} (k : Nat) (h : 0 < d) : roundQuotient (k * d) d = k := by
  have hlt : compare (2 * (k * d % d)) d = .lt := by
    rw [Nat.mul_mod_left]
    exact Nat.compare_eq_lt.2 h
  simp only [roundQuotient, hlt]
  exact Nat.mul_div_cancel k h

end CallScript.Decimal
