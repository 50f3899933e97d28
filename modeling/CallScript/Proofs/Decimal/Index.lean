import CallScript.Eval.Native
import Mathlib.Algebra.Order.Field.Rat
import Mathlib.Tactic.Lift
import Mathlib.Tactic.Positivity

/-!
# Doubles as indices

A double names a place in an array if the rational number that it stands for is the number of the
place. So the two zeros name the same place, and a double that stands for no number, for a fraction, or
for a number that is too small or too large names none.
-/

namespace CallScript.Decimal.Dyadic

def signedMantissa (negative : Bool) (mantissa : Nat) : ℤ :=
  if negative then -mantissa else mantissa

/-- The rational number that a double stands for, if it stands for one. -/
def rational? : Dyadic → Option ℚ
  | finite negative mantissa exponent => some (signedMantissa negative mantissa * 2 ^ exponent)
  | _ => none

theorem signedMantissa_mul (negative : Bool) (mantissa factor : Nat) :
    signedMantissa negative (mantissa * factor) = signedMantissa negative mantissa * factor := by
  cases negative <;> simp [signedMantissa]

theorem natAbs_signedMantissa (negative : Bool) (mantissa : Nat) :
    (signedMantissa negative mantissa).natAbs = mantissa := by
  cases negative <;> simp [signedMantissa]

theorem toInt?_ofNat (negative : Bool) (mantissa k : Nat) :
    (finite negative mantissa (.ofNat k)).toInt? = some (signedMantissa negative (mantissa * 2 ^ k)) :=
  rfl

/-- With places behind the binary point only multiples of what the point was moved by are integers. -/
theorem toInt?_negSucc_eq_some_iff {negative : Bool} {mantissa k : Nat} {n : ℤ} :
    (finite negative mantissa (.negSucc k)).toInt? = some n ↔
      signedMantissa negative mantissa = n * (2 ^ (k + 1) : Nat) := by
  have htoInt : (finite negative mantissa (.negSucc k)).toInt? =
      if mantissa % 2 ^ (k + 1) = 0 then some (signedMantissa negative (mantissa / 2 ^ (k + 1))) else none :=
    rfl
  rw [htoInt]
  constructor
  · intro h
    split at h
    · next hmod =>
      rw [← Option.some.inj h, ← signedMantissa_mul, Nat.div_mul_cancel (Nat.dvd_of_mod_eq_zero hmod)]
    · cases h
  · intro h
    have hmantissa : mantissa = n.natAbs * 2 ^ (k + 1) := by
      rw [← natAbs_signedMantissa negative mantissa, h, Int.natAbs_mul, Int.natAbs_natCast]
    have hn : signedMantissa negative n.natAbs = n := by
      rw [hmantissa, signedMantissa_mul] at h
      exact Int.eq_of_mul_eq_mul_right (by positivity) h
    rw [hmantissa, Nat.mul_mod_left, if_pos rfl, Nat.mul_div_cancel _ (Nat.two_pow_pos _), hn]

/-- A double equals an integer if the rational number that it stands for is this integer. -/
theorem toInt?_eq_some_iff {d : Dyadic} {n : ℤ} : d.toInt? = some n ↔ d.rational? = some (n : ℚ) := by
  cases d with
  | nan => simp [toInt?, rational?]
  | infinite => simp [toInt?, rational?]
  | finite negative mantissa exponent =>
    rw [rational?, Option.some.injEq]
    cases exponent with
    | ofNat k =>
      rw [toInt?_ofNat, Option.some.injEq, signedMantissa_mul, Int.ofNat_eq_natCast, zpow_natCast]
      exact_mod_cast Iff.rfl
    | negSucc k =>
      rw [toInt?_negSucc_eq_some_iff, zpow_negSucc, mul_inv_eq_iff_eq_mul₀ (by positivity)]
      exact_mod_cast Iff.rfl

/-- The double names no place in an array of that length. -/
inductive OutOfRange (length : Nat) (d : Dyadic) : Prop where
  | nan (is : d = .nan)
  | infinite {negative} (is : d = .infinite negative)
  | fraction {q} (value : d.rational? = some q) (between : ∀ n : ℤ, q ≠ n)
  | negative {q} (value : d.rational? = some q) (below : q < 0)
  | beyond {q} (value : d.rational? = some q) (above : (length : ℚ) ≤ q)

end CallScript.Decimal.Dyadic

namespace CallScript.Native

open Decimal

variable {length i : Nat} {x : Float}

theorem index?_eq_some_iff :
    index? length x = some i ↔ (Dyadic.ofFloat x).rational? = some (i : ℚ) ∧ i < length := by
  have hint := @Dyadic.toInt?_eq_some_iff (Dyadic.ofFloat x) i
  rw [Int.cast_natCast] at hint
  rw [← hint, index?]
  cases (Dyadic.ofFloat x).toInt? with
  | none => simp
  | some n =>
    cases n with
    | ofNat n =>
      simp only [Option.some.injEq, Int.ofNat_eq_natCast, Int.natCast_inj]
      split
      · next hlt =>
        rw [Option.some.injEq]
        exact ⟨fun h => ⟨h, h ▸ hlt⟩, And.left⟩
      · next hlt =>
        refine ⟨nofun, ?_⟩
        rintro ⟨rfl, h⟩
        exact absurd h hlt
    | negSucc n => simp

/-- Exactly the doubles out of range name no place. -/
theorem index?_eq_none_iff : index? length x = none ↔ (Dyadic.ofFloat x).OutOfRange length := by
  constructor
  · intro h
    have hplace : ∀ i : Nat, (Dyadic.ofFloat x).rational? = some (i : ℚ) → length ≤ i := by
      intro i hvalue
      by_contra hlt
      have hi := index?_eq_some_iff.2 ⟨hvalue, Nat.not_le.1 hlt⟩
      rw [h] at hi
      cases hi
    generalize Dyadic.ofFloat x = d at hplace
    cases d with
    | nan => exact .nan rfl
    | infinite => exact .infinite rfl
    | finite negative mantissa exponent =>
      by_cases hinteger : ∃ n : ℤ, Dyadic.signedMantissa negative mantissa * (2 : ℚ) ^ exponent = n
      · obtain ⟨n, hn⟩ := hinteger
        have hvalue : (Dyadic.finite negative mantissa exponent).rational? = some (n : ℚ) :=
          congrArg some hn
        rcases lt_or_ge n 0 with hneg | hpos
        · exact .negative hvalue (by exact_mod_cast hneg)
        · lift n to ℕ using hpos
          exact .beyond hvalue (by exact_mod_cast hplace n hvalue)
      · exact .fraction rfl fun n hn => hinteger ⟨n, hn⟩
  · intro h
    by_contra hsome
    obtain ⟨i, hi⟩ := Option.ne_none_iff_exists'.1 hsome
    obtain ⟨hvalue, hlt⟩ := index?_eq_some_iff.1 hi
    cases h with
    | nan is => rw [is] at hvalue; cases hvalue
    | infinite is => rw [is] at hvalue; cases hvalue
    | fraction value between =>
      rw [hvalue, Option.some.injEq] at value
      exact between i value.symm
    | negative value below =>
      rw [hvalue, Option.some.injEq] at value
      subst value
      exact absurd below (not_lt.2 (Nat.cast_nonneg i))
    | beyond value above =>
      rw [hvalue, Option.some.injEq] at value
      subst value
      exact absurd hlt (Nat.not_lt.2 (by exact_mod_cast above))

end CallScript.Native
