import CallScript.Decimal.Pattern
import CallScript.Grammar.Token

/-!
# Integers among doubles

The double nearest to a natural number is an integer or infinity, and never negative. The other way
round, an integral double that is not negative is the nearest one to the number it stands for: its
mantissa, shifted to the place of its exponent, has the same top bit as that number, so the number's
bit pattern is computed back without rounding.
-/

namespace CallScript.Decimal

theorem toBits_injective {x y : Float} (h : x.toBits = y.toBits) : x = y := by
  cases x with
  | ofModel a =>
    cases y with
    | ofModel b =>
      cases a
      cases b
      cases h
      rfl

namespace Dyadic

/-- The natural number that a double equals, its sign bit being clear. -/
inductive IsNatural : Dyadic → Nat → Prop where
  | mk {mantissa n : Nat} {exponent : Int}
      (h : (finite false mantissa exponent).toInt? = some (n : Int)) :
      IsNatural (finite false mantissa exponent) n

theorem IsNatural.toInt?_eq {d : Dyadic} {n : Nat} (h : d.IsNatural n) : d.toInt? = some (n : Int) := by
  cases h with
  | mk h => exact h

theorem isNatural_of_exponent_nonneg (mantissa k : Nat) :
    (finite false mantissa k).IsNatural (mantissa * 2 ^ k) :=
  .mk rfl

/-- A mantissa behind the binary point counts only if it is a multiple of the point's place. -/
theorem IsNatural.eq_mul {mantissa n k : Nat} (h : (finite false mantissa (Int.negSucc k)).IsNatural n) :
    mantissa = n * 2 ^ (k + 1) := by
  have hn := h.toInt?_eq
  simp only [toInt?] at hn
  split at hn
  · next hmod =>
    simp only [Bool.false_eq_true, if_false, Option.some.injEq, Int.natCast_inj] at hn
    rw [← hn]
    exact (Nat.div_mul_cancel (Nat.dvd_of_mod_eq_zero hmod)).symm
  · cases hn

end Dyadic

theorem Dyadic.IsNatural.eq_zero {m n j k : Nat} (hm : m < 2 ^ j) (hjk : j ≤ k + 1)
    (h : (finite false m (Int.negSucc k)).IsNatural n) : m = 0 ∧ n = 0 := by
  have hmul := h.eq_mul
  rcases Nat.eq_zero_or_pos n with rfl | hpos
  · exact ⟨by rw [hmul, Nat.zero_mul], rfl⟩
  · have hpow : 2 ^ j ≤ 2 ^ (k + 1) := Nat.pow_le_pow_right (by decide) hjk
    have hle : 2 ^ (k + 1) ≤ n * 2 ^ (k + 1) := Nat.le_mul_of_pos_left _ hpos
    omega

theorem Dyadic.isNatural_zero (k : Nat) : (finite false 0 (Int.negSucc k)).IsNatural 0 :=
  .mk (by simp [toInt?])

/-- The fields of the pattern of a positive double, given back by what the double stands for. -/
theorem eq_of_ofBits_finite {b m : Nat} {e : Int} (hb : b < 2 ^ 64)
    (h : Dyadic.ofBits b = .finite false m e) :
    (b = m ∧ m < 2 ^ 52 ∧ e = -1074) ∨
      ∃ E : Nat, 1 ≤ E ∧ E ≤ 2046 ∧ e = (E : Int) - 1075 ∧ 2 ^ 52 ≤ m ∧ m < 2 ^ 53 ∧
        b = (E - 1) * 2 ^ 52 + m := by
  simp only [Dyadic.ofBits] at h
  split at h
  · split at h <;> cases h
  · next hmax =>
    split at h
    · next hzero =>
      simp only [Dyadic.finite.injEq, beq_eq_false_iff_ne, ne_eq] at h
      obtain ⟨hsign, hm, he⟩ := h
      left
      omega
    · next hzero =>
      simp only [Dyadic.finite.injEq, beq_eq_false_iff_ne, ne_eq] at h
      obtain ⟨hsign, hm, he⟩ := h
      right
      refine ⟨b / 2 ^ 52 % 2 ^ 11, ?_⟩
      omega

/-- A number whose top bit is at place `top` has the exponent that belongs to that place. -/
theorem nearestBits_of_log2 {n m : Nat} (h0 : n ≠ 0) (hm : m < 2 ^ 53) (hle : n.log2 ≤ 1023)
    (hmantissa : (if n.log2 ≤ 52 then n * 2 ^ (52 - n.log2)
      else roundQuotient n (2 ^ (n.log2 - 52))) = m) :
    nearestBits n = (n.log2 + 1022) * 2 ^ 52 + m := by
  rw [nearestBits, if_neg h0]
  simp only [hmantissa, infinityBits]
  omega

theorem log2_mul_two_pow {n : Nat} (h : n ≠ 0) (k : Nat) : (n * 2 ^ k).log2 = n.log2 + k := by
  induction k with
  | zero => simp
  | succ k ih =>
    have hk : n * 2 ^ k ≠ 0 := Nat.mul_ne_zero h (Nat.ne_of_gt (Nat.two_pow_pos k))
    rw [Nat.pow_succ, ← Nat.mul_assoc, Nat.mul_comm, Nat.log2_two_mul hk, ih, Nat.add_assoc]

/-- The pattern of an integral double that is not negative is computed back from the integer. -/
theorem nearestBits_of_isNatural {b n : Nat} (hb : b < 2 ^ 64) (h : (Dyadic.ofBits b).IsNatural n) :
    nearestBits n = b := by
  cases hd : Dyadic.ofBits b with
  | nan => rw [hd] at h; cases h
  | infinite negative => rw [hd] at h; cases h
  | finite negative m e =>
    rw [hd] at h
    obtain rfl : negative = false := by cases h; rfl
    rcases eq_of_ofBits_finite hb hd with ⟨rfl, hm, rfl⟩ | ⟨E, hE, hmax, rfl, hlow, hhigh, rfl⟩
    · obtain ⟨rfl, rfl⟩ := @Dyadic.IsNatural.eq_zero b n 52 1073 hm (by decide) h
      rfl
    have hm0 : m ≠ 0 := by omega
    have hlog : m.log2 = 52 := (Nat.log2_eq_iff hm0).2 ⟨hlow, hhigh⟩
    by_cases hexp : 1075 ≤ E
    · obtain ⟨k, rfl⟩ : ∃ k, E = 1075 + k := ⟨E - 1075, by omega⟩
      obtain rfl : m * 2 ^ k = n := by
        have hint := h.toInt?_eq
        rw [show ((1075 + k : Nat) : Int) - 1075 = k by omega] at hint
        simp only [Dyadic.toInt?, Bool.false_eq_true, if_false, Option.some.injEq] at hint
        exact_mod_cast hint
      have htop := log2_mul_two_pow hm0 k
      rw [hlog] at htop
      have hn0 : m * 2 ^ k ≠ 0 := Nat.mul_ne_zero hm0 (Nat.ne_of_gt (Nat.two_pow_pos k))
      rw [nearestBits_of_log2 hn0 hhigh (by omega)]
      · omega
      · rw [htop, Nat.add_sub_cancel_left, roundQuotient_mul m (Nat.two_pow_pos k)]
        split
        · obtain rfl : k = 0 := by omega
          simp
        · rfl
    · obtain ⟨k, hk⟩ : ∃ k, E + (k + 1) = 1075 := ⟨1074 - E, by omega⟩
      rw [show (E : Int) - 1075 = Int.negSucc k by omega] at h
      have hmul := h.eq_mul
      have hn0 : n ≠ 0 := by
        rintro rfl
        exact hm0 (by rw [hmul, Nat.zero_mul])
      have htop := log2_mul_two_pow hn0 (k + 1)
      rw [← hmul, hlog] at htop
      rw [nearestBits_of_log2 hn0 hhigh (by omega)]
      · omega
      · rw [if_pos (by omega), show 52 - n.log2 = k + 1 by omega, ← hmul]

theorem nearest_of_isNatural {x : Float} {n : Nat} (h : (Dyadic.ofFloat x).IsNatural n) :
    nearest n = x := by
  have hbits : nearestBits n = x.toBits.toNat := nearestBits_of_isNatural x.toBits.toNat_lt h
  apply toBits_injective
  apply UInt64.toNat_inj.1
  rw [toBits_nearest, hbits]

theorem div_le_roundQuotient (n d : Nat) : n / d ≤ roundQuotient n d := by
  unfold roundQuotient
  dsimp only
  split <;> omega

/-- Rounding does not take the top bit of a long number away. -/
theorem two_pow_le_mantissa {n : Nat} (h0 : n ≠ 0) (h : 52 ≤ n.log2) :
    2 ^ 52 ≤ roundQuotient n (2 ^ (n.log2 - 52)) := by
  refine Nat.le_trans ?_ (div_le_roundQuotient _ _)
  rw [Nat.le_div_iff_mul_le (Nat.two_pow_pos _), ← Nat.pow_add,
    show 52 + (n.log2 - 52) = n.log2 by omega]
  exact Nat.log2_self_le h0

/-- From `2 ^ 53` on the nearest doubles are so large that no place behind the point is left. -/
theorem le_nearestBits {n : Nat} (h : 2 ^ 53 ≤ n) : 1076 * 2 ^ 52 ≤ nearestBits n := by
  have h0 : n ≠ 0 := by omega
  have htop : 53 ≤ n.log2 := (Nat.le_log2 h0).2 h
  have hmantissa := two_pow_le_mantissa h0 (by omega)
  rw [nearestBits, if_neg h0]
  simp only [if_neg (show ¬ n.log2 ≤ 52 by omega), infinityBits]
  omega

/-- Past the range of finite doubles the nearest one is infinity. -/
theorem ofFloat_nearest_of_ge {n : Nat} (h : 2 ^ 1024 ≤ n) :
    Dyadic.ofFloat (nearest n) = .infinite false := by
  have h0 : n ≠ 0 := Nat.ne_of_gt (Nat.lt_of_lt_of_le (Nat.two_pow_pos 1024) h)
  have htop : 1024 ≤ n.log2 := (Nat.le_log2 h0).2 h
  have hbits : nearestBits n = infinityBits := by
    have hmantissa := two_pow_le_mantissa h0 (by omega)
    rw [nearestBits, if_neg h0]
    simp only [if_neg (show ¬ n.log2 ≤ 52 by omega), infinityBits]
    omega
  rw [ofFloat_nearest, hbits]
  rfl

/-- The double nearest to a natural number is one itself, or infinity. -/
theorem nearest_isNatural_or_infinite (n : Nat) :
    (∃ k, (Dyadic.ofFloat (nearest n)).IsNatural k) ∨
      Dyadic.ofFloat (nearest n) = .infinite false := by
  have hle := nearestBits_le n
  unfold infinityBits at hle
  rcases Nat.lt_or_ge n (2 ^ 53) with hsmall | hlarge
  · left
    refine ⟨n, ?_⟩
    have hint := toInt?_nearest hsmall
    by_cases h0 : n = 0
    · subst h0
      rw [ofFloat_nearest,
        show Dyadic.ofBits (nearestBits 0) = .finite false 0 (Int.negSucc 1073) from rfl]
      exact Dyadic.isNatural_zero 1073
    · rw [ofFloat_nearest_of_lt h0 hsmall] at hint ⊢
      exact .mk hint
  · have hge := le_nearestBits hlarge
    rw [ofFloat_nearest]
    generalize nearestBits n = b at hle hge
    have hsign : b / 2 ^ 63 % 2 = 0 := by omega
    by_cases hmax : b / 2 ^ 52 % 2 ^ 11 = 2047
    · right
      have hfraction : b % 2 ^ 52 = 0 := by omega
      simp only [Dyadic.ofBits, hsign, hmax, hfraction]
      rfl
    · left
      obtain ⟨k, hk⟩ : ∃ k, b / 2 ^ 52 % 2 ^ 11 = 1075 + k := ⟨b / 2 ^ 52 % 2 ^ 11 - 1075, by omega⟩
      simp only [Dyadic.ofBits, hsign, hk]
      rw [if_neg (by omega), if_neg (by omega), show ((1075 + k : Nat) : Int) - 1075 = k by omega]
      exact ⟨_, Dyadic.isNatural_of_exponent_nonneg _ _⟩

end CallScript.Decimal

namespace CallScript.Grammar

theorem digitsValue_toDigits (n : Nat) : digitsValue (Nat.toDigits 10 n) = n :=
  Nat.ofDigitChars_ten_toDigits

end CallScript.Grammar
