import CallScript.Proofs.Decimal.Reading
import Mathlib.Tactic.Linarith
import Mathlib.Tactic.Positivity

/-!
# The interval around a double

The decimal chosen for a double lies in the interval that rounds to it. The intervals of two doubles
have no number in common: neighbours share an end at most, it belongs to the one with the even
mantissa only, and at a power of two, where doubles come to stand twice as close, the double below has
an odd mantissa. So the decimal determines the double.
-/

namespace CallScript.Decimal

namespace Interval

variable {i : Interval} {d : Fraction} {q : ℚ} {n k : Nat} {unit exponent : ℤ}

theorem zpow_mul_pow_toNat {b : ℚ} (hb : b ≠ 0) (k : ℤ) : b ^ k * b ^ (-k).toNat = b ^ k.toNat := by
  rw [← zpow_natCast, ← zpow_natCast, ← zpow_add₀ hb]
  congr 1
  omega

/-- Both sides of a comparison, multiplied by one positive number. -/
theorem exists_scale (n : Nat) (unit : ℤ) (k : Nat) (exponent : ℤ) :
    ∃ scale : ℚ, 0 < scale ∧
      (n * 2 ^ unit) * scale =
        ((n * 2 ^ unit.toNat * 10 ^ (-exponent).toNat : Nat) : ℚ) ∧
      (k * 10 ^ exponent) * scale =
        ((k * 10 ^ exponent.toNat * 2 ^ (-unit).toNat : Nat) : ℚ) := by
  have htwo := zpow_mul_pow_toNat (b := 2) (by norm_num) unit
  have hten := zpow_mul_pow_toNat (b := 10) (by norm_num) exponent
  refine ⟨2 ^ (-unit).toNat * 10 ^ (-exponent).toNat, by positivity, ?_, ?_⟩
  · push_cast
    rw [← htwo]
    ring
  · push_cast
    rw [← hten]
    ring

theorem compareScaled_eq_lt_iff :
    compareScaled n unit k exponent = .lt ↔ (n * 2 ^ unit : ℚ) < k * 10 ^ exponent := by
  obtain ⟨scale, hscale, hleft, hright⟩ := exists_scale n unit k exponent
  rw [← mul_lt_mul_iff_left₀ hscale, hleft, hright, Nat.cast_lt]
  exact Nat.compare_eq_lt

theorem compareScaled_eq_gt_iff :
    compareScaled n unit k exponent = .gt ↔ (k * 10 ^ exponent : ℚ) < n * 2 ^ unit := by
  obtain ⟨scale, hscale, hleft, hright⟩ := exists_scale n unit k exponent
  rw [← mul_lt_mul_iff_left₀ hscale, hleft, hright, Nat.cast_lt]
  exact Nat.compare_eq_gt

theorem compareScaled_eq_eq_iff :
    compareScaled n unit k exponent = .eq ↔ (n * 2 ^ unit : ℚ) = k * 10 ^ exponent := by
  obtain ⟨scale, hscale, hleft, hright⟩ := exists_scale n unit k exponent
  rw [← mul_left_inj' hscale.ne', hleft, hright, Nat.cast_inj]
  exact Nat.compare_eq_eq

/-- The number lies in the interval. -/
structure Contains (i : Interval) (q : ℚ) : Prop where
  low : i.low * 2 ^ i.unit < q ∨ i.closed = true ∧ i.low * 2 ^ i.unit = q
  high : q < i.high * 2 ^ i.unit ∨ i.closed = true ∧ q = i.high * 2 ^ i.unit

theorem contains_of_readsBack (h : i.readsBack d = true) : i.Contains d.value := by
  unfold readsBack at h
  split at h
  · next hlow hhigh =>
    exact ⟨.inl (compareScaled_eq_lt_iff.1 hlow), .inl (compareScaled_eq_gt_iff.1 hhigh)⟩
  · next hlow hhigh =>
    exact ⟨.inr ⟨h, compareScaled_eq_eq_iff.1 hlow⟩, .inl (compareScaled_eq_gt_iff.1 hhigh)⟩
  · next hlow hhigh =>
    exact ⟨.inl (compareScaled_eq_lt_iff.1 hlow), .inr ⟨h, (compareScaled_eq_eq_iff.1 hhigh).symm⟩⟩
  · cases h

theorem readsBack_of_onGrid {count : Nat} (h : i.onGrid count = some d) : i.readsBack d = true := by
  unfold onGrid at h
  dsimp only at h
  grind

theorem value_exact (i : Interval) : i.exact.value = i.value * 2 ^ i.unit := by
  have hten : (10 : ℚ) ^ (-i.unit).toNat = 5 ^ (-i.unit).toNat * 2 ^ (-i.unit).toNat := by
    rw [← mul_pow]
    norm_num
  rw [exact, Fraction.value, show min i.unit 0 = -((-i.unit).toNat : ℤ) by omega, zpow_neg,
    zpow_natCast, hten]
  push_cast
  rw [← zpow_mul_pow_toNat two_ne_zero i.unit]
  field_simp

/-- A value strictly between the ends lies in the interval, whether the ends do or not. -/
theorem contains_value (hlow : i.low < i.value) (hhigh : i.value < i.high) :
    i.Contains (i.value * 2 ^ i.unit) := by
  have hpow : (0 : ℚ) < 2 ^ i.unit := zpow_pos two_pos _
  exact ⟨.inl (mul_lt_mul_of_pos_right (by exact_mod_cast hlow) hpow),
    .inl (mul_lt_mul_of_pos_right (by exact_mod_cast hhigh) hpow)⟩

theorem contains_shortest (hlow : i.low < i.value) (hhigh : i.value < i.high) :
    i.Contains i.shortest.value := by
  rw [shortest]
  cases hfind : (List.range' 1 17).findSome? i.onGrid with
  | some d =>
    obtain ⟨count, -, hcount⟩ := List.exists_of_findSome?_eq_some hfind
    exact contains_of_readsBack (readsBack_of_onGrid hcount)
  | none =>
    rw [Option.getD_none, value_exact]
    exact contains_value hlow hhigh

theorem around_bounds {m : Nat} (h : 0 < m) (e : ℤ) :
    (around m e).low < (around m e).value ∧ (around m e).value < (around m e).high := by
  simp only [around]
  split <;> omega

end Interval

theorem value_stripZeros (fuel : Nat) (d : Fraction) : (d.stripZeros fuel).value = d.value := by
  induction fuel generalizing d with
  | zero => rfl
  | succ fuel ih =>
    rw [Fraction.stripZeros]
    split
    · next hzero =>
      obtain ⟨k, hk⟩ := Nat.dvd_of_mod_eq_zero hzero.2
      have hdiv : d.digits / 10 = k := by omega
      rw [ih, Fraction.value, Fraction.value, hdiv, hk, zpow_add_one₀ (by norm_num)]
      push_cast
      ring
    · rfl

variable {m m' k : Nat} {e e' : ℤ} {q q' : ℚ}

theorem contains_shortest (h : 0 < m) (e : ℤ) :
    (Interval.around m e).Contains (shortest m e).value := by
  obtain ⟨hlow, hhigh⟩ := Interval.around_bounds h e
  rw [shortest, value_stripZeros]
  exact Interval.contains_shortest hlow hhigh

theorem contains_self (h : 0 < m) (e : ℤ) : (Interval.around m e).Contains (m * 2 ^ e) := by
  obtain ⟨hlow, hhigh⟩ := Interval.around_bounds h e
  have hvalue : (m * 2 ^ e : ℚ) = (4 * m : Nat) * 2 ^ (e - 2) := by
    rw [zpow_sub₀ two_ne_zero]
    push_cast
    field_simp
  rw [hvalue]
  exact Interval.contains_value hlow hhigh

theorem pos_of_contains (h : 0 < m) (hq : (Interval.around m e).Contains q) : 0 < q := by
  have hlow : 0 < (Interval.around m e).low := by
    simp only [Interval.around]
    split <;> omega
  have hpos : (0 : ℚ) < (Interval.around m e).low * 2 ^ (Interval.around m e).unit :=
    mul_pos (by exact_mod_cast hlow) (zpow_pos two_pos _)
  rcases hq.low with hlt | ⟨-, heq⟩
  · exact hpos.trans hlt
  · exact heq ▸ hpos

/-- A mantissa and an exponent as a bit pattern has them: the leading bit is set unless the exponent is
the least one. -/
structure Normal (m : Nat) (e : ℤ) : Prop where
  below : m < 2 ^ 53
  least : -1074 ≤ e
  leading : 2 ^ 52 ≤ m ∨ e = -1074

/-- Where one interval ends the next one begins at the earliest, and one of the two mantissas is odd if
it begins there. -/
theorem high_le_low (h : Normal m e) (h' : Normal m' (e + k)) (hlt : k = 0 → m < m') :
    (Interval.around m e).high ≤ (Interval.around m' (e + k)).low * 2 ^ k ∧
      ((Interval.around m e).high = (Interval.around m' (e + k)).low * 2 ^ k →
        m % 2 = 1 ∨ m' % 2 = 1) := by
  have hbelow := h.below
  have hleast := h.least
  simp only [Interval.around]
  rcases Nat.eq_zero_or_pos k with rfl | hk
  · have := hlt rfl
    split <;> omega
  · have hleading := h'.leading
    obtain ⟨j, rfl⟩ : ∃ j, k = j + 1 := ⟨k - 1, by omega⟩
    generalize hlow : (if m' = 2 ^ 52 ∧ -1074 < e + (j + 1 : Nat) then 4 * m' - 1 else 4 * m' - 2) =
      low
    -- one step of the exponent doubles the lower end, so only the largest mantissa comes up to it
    have hdouble : low * 2 ≤ low * 2 ^ (j + 1) :=
      Nat.mul_le_mul_left low (Nat.le_self_pow (by omega) 2)
    have hlarge : 2 ^ 54 - 1 ≤ low := by
      split at hlow <;> omega
    omega

/-- What rounds to a double is less than what rounds to a greater one. -/
theorem lt_of_contains (h : Normal m e) (h' : Normal m' e') (hle : e ≤ e') (hlt : e = e' → m < m')
    (hq : (Interval.around m e).Contains q) (hq' : (Interval.around m' e').Contains q') :
    q < q' := by
  obtain ⟨k, rfl⟩ := Int.le.dest hle
  obtain ⟨hends, htouch⟩ := high_le_low h h' fun hk => hlt (by omega)
  have hpow : (0 : ℚ) < 2 ^ (e - 2) := zpow_pos two_pos _
  have hshift : ((Interval.around m' (e + k)).low * 2 ^ (e + k - 2) : ℚ) =
      ((Interval.around m' (e + k)).low * 2 ^ k : Nat) * 2 ^ (e - 2) := by
    rw [show e + k - 2 = k + (e - 2) by ring, zpow_add₀ two_ne_zero, zpow_natCast]
    push_cast
    ring
  have hends : ((Interval.around m e).high * 2 ^ (e - 2) : ℚ) ≤
      (Interval.around m' (e + k)).low * 2 ^ (e + k - 2) := by
    rw [hshift]
    exact mul_le_mul_of_nonneg_right (by exact_mod_cast hends) hpow.le
  rcases hq.high with hhigh | ⟨hclosed, rfl⟩
  · rcases hq'.low with hlow | ⟨-, rfl⟩
    · exact hhigh.trans_le hends |>.trans hlow
    · exact hhigh.trans_le hends
  · rcases hq'.low with hlow | ⟨hclosed', rfl⟩
    · exact hends.trans_lt hlow
    · refine hends.lt_of_ne fun heq => ?_
      have hmeet := mul_right_cancel₀ hpow.ne' (heq.trans hshift)
      have hodd := htouch (by exact_mod_cast hmeet)
      simp only [Interval.around, beq_iff_eq] at hclosed hclosed'
      omega

/-- A number rounds to one double at most. -/
theorem eq_of_contains (h : Normal m e) (h' : Normal m' e') (hq : (Interval.around m e).Contains q)
    (hq' : (Interval.around m' e').Contains q) : m = m' ∧ e = e' := by
  rcases lt_trichotomy e e' with hlt | rfl | hlt
  · exact absurd (lt_of_contains h h' hlt.le (by omega) hq hq') (lt_irrefl q)
  · rcases lt_trichotomy m m' with hlt | rfl | hlt
    · exact absurd (lt_of_contains h h' le_rfl (fun _ => hlt) hq hq') (lt_irrefl q)
    · exact ⟨rfl, rfl⟩
    · exact absurd (lt_of_contains h' h le_rfl (fun _ => hlt) hq' hq) (lt_irrefl q)
  · exact absurd (lt_of_contains h' h hlt.le (by omega) hq' hq) (lt_irrefl q)

end CallScript.Decimal
