import CallScript.Proofs.Decimal.Integral
import CallScript.Proofs.Decimal.Interval

/-!
# Doubles by what they stand for

A double is given back by what it stands for: the sign, the mantissa and the exponent make up its bit
pattern again, and only one double is not a number. Mantissas and exponents are those whose intervals
have nothing in common.
-/

namespace CallScript.Decimal.Dyadic

variable {b m : Nat} {e : ℤ} {negative : Bool} {x y : Float}

theorem normal_of_ofBits (h : ofBits b = .finite negative m e) : Normal m e := by
  simp only [ofBits] at h
  split at h
  · split at h <;> cases h
  · split at h
    · cases h
      exact ⟨by omega, by omega, .inr rfl⟩
    · cases h
      exact ⟨by omega, by omega, .inl (by omega)⟩

def pattern : Dyadic → Nat
  | nan => 0
  | infinite negative => negative.toNat * 2 ^ 63 + infinityBits
  | finite negative mantissa exponent =>
    negative.toNat * 2 ^ 63 + (exponent + 1074).toNat * 2 ^ 52 + mantissa

theorem pattern_ofBits (hb : b < 2 ^ 64) (hnan : ofBits b ≠ .nan) : (ofBits b).pattern = b := by
  have hsign : (b / 2 ^ 63 % 2 == 1).toNat = b / 2 ^ 63 := by
    rcases (by omega : b / 2 ^ 63 = 0 ∨ b / 2 ^ 63 = 1) with h | h <;> rw [h] <;> rfl
  simp only [ofBits] at hnan ⊢
  split
  · next hexponent =>
    split
    · simp only [pattern, hsign, infinityBits]
      omega
    · next hfraction =>
      simp only [if_pos hexponent, if_neg hfraction] at hnan
      exact absurd rfl hnan
  · split
    · simp only [pattern, hsign]
      omega
    · simp only [pattern, hsign]
      omega

/-- Doubles that are no numbers have one bit pattern. -/
theorem toBits_of_ofFloat_nan (h : ofFloat x = .nan) :
    x.toBits.toBitVec = Float.Model.UnpackedFloat.packedNaN .binary64 := by
  have hfields : x.toBits.toNat / 2 ^ 52 % 2 ^ 11 = 2047 ∧ x.toBits.toNat % 2 ^ 52 ≠ 0 := by
    simp only [ofFloat, ofBits] at h
    split at h
    · next hexponent =>
      split at h
      · cases h
      · next hfraction => exact ⟨hexponent, hfraction⟩
    · split at h <;> cases h
  have hexponent : exponentField x.toBits.toBitVec = -1#11 := by
    apply BitVec.eq_of_toNat_eq
    rw [toNat_exponentField]
    exact hfields.1
  have hfraction : fractionField x.toBits.toBitVec ≠ 0#52 := by
    intro hzero
    have htoNat := toNat_fractionField x.toBits.toBitVec
    rw [hzero] at htoNat
    exact hfields.2 htoNat.symm
  exact x.toModel.valid.eq_packedNaN hexponent hfraction

theorem ofFloat_injective : Function.Injective ofFloat := by
  intro x y h
  by_cases hnan : ofFloat x = .nan
  · have hnan' : ofFloat y = .nan := h ▸ hnan
    apply toBits_injective
    apply UInt64.eq_of_toBitVec_eq
    rw [toBits_of_ofFloat_nan hnan, toBits_of_ofFloat_nan hnan']
  · have hnan' : ofFloat y ≠ .nan := h ▸ hnan
    apply toBits_injective
    apply UInt64.toNat_inj.1
    rw [← pattern_ofBits x.toBits.toNat_lt hnan, ← pattern_ofBits y.toBits.toNat_lt hnan']
    exact congrArg pattern h

theorem beq_of_ofFloat_zero {negative' : Bool} {e' : ℤ} (h : ofFloat x = .finite negative 0 e)
    (h' : ofFloat y = .finite negative' 0 e') : (x == y) = true := by
  have hzero : ∀ {z : Float} {s : Bool} {k : ℤ}, ofFloat z = .finite s 0 k → z = 0 ∨ z = -0 := by
    intro z s k hz
    have hk : k = -1074 := by
      have := (normal_of_ofBits hz).leading
      omega
    subst hk
    cases s with
    | false => exact .inl (ofFloat_injective (hz.trans (by decide)))
    | true => exact .inr (ofFloat_injective (hz.trans (by decide)))
  rcases hzero h with rfl | rfl <;> rcases hzero h' with rfl | rfl <;> decide

end CallScript.Decimal.Dyadic
