import CallScript.Decimal.Nearest

/-!
# Bit patterns

A double made of a bit pattern has that pattern, unless the pattern stands for no number: patterns of
that kind are all replaced by one. Hence the double nearest to a natural number is decoded to what
`nearestBits` says, and is the number itself below `2 ^ 53`.
-/

namespace CallScript.Decimal

open Float.Model hiding pack unpack
open Float.Model.UnpackedFloat

abbrev signField (b : BitVec 64) : BitVec 1 :=
  @unpackSign Format.binary64 b

abbrev exponentField (b : BitVec 64) : BitVec 11 :=
  @unpackExponent Format.binary64 b

abbrev fractionField (b : BitVec 64) : BitVec 52 :=
  @unpackMantissa Format.binary64 b

theorem toNat_signField (b : BitVec 64) : (signField b).toNat = b.toNat / 2 ^ 63 := by
  have := b.isLt
  have hfield : (signField b).toNat = (b.extractLsb 63 63).toNat := rfl
  rw [hfield, BitVec.extractLsb_toNat, Nat.shiftRight_eq_div_pow]
  omega

theorem toNat_exponentField (b : BitVec 64) :
    (exponentField b).toNat = b.toNat / 2 ^ 52 % 2 ^ 11 := by
  simp [exponentField, unpackExponent, Nat.shiftRight_eq_div_pow]

theorem toNat_fractionField (b : BitVec 64) : (fractionField b).toNat = b.toNat % 2 ^ 52 := by
  simp [fractionField, unpackMantissa]

theorem toBitVec_ofBitVec (v : BitVec 1) : (Sign.ofBitVec v).toBitVec = v := by
  have hv := v.isLt
  rcases (by omega : v.toNat = 0 ∨ v.toNat = 1) with h | h
  · rw [show v = 0#1 from BitVec.eq_of_toNat_eq h]
    rfl
  · rw [show v = 1#1 from BitVec.eq_of_toNat_eq h]
    rfl

theorem toNat_packComponents (sign : Sign) (e : BitVec 11) (m : BitVec 52) :
    (packComponents Format.binary64 sign e m).toNat =
      sign.toBitVec.toNat * 2 ^ 63 + e.toNat * 2 ^ 52 + m.toNat := by
  simp only [packComponents, BitVec.toNat_append]
  rw [← Nat.shiftLeft_add_eq_or_of_lt m.isLt, ← Nat.shiftLeft_add_eq_or_of_lt e.isLt,
    Nat.shiftLeft_eq, Nat.shiftLeft_eq]
  show (sign.toBitVec.toNat * 2 ^ 11 + e.toNat) * 2 ^ 52 + m.toNat = _
  omega

theorem packComponents_fields (b : BitVec 64) :
    packComponents Format.binary64 (Sign.ofBitVec (signField b)) (exponentField b)
      (fractionField b) = b := by
  apply BitVec.eq_of_toNat_eq
  rw [toNat_packComponents, toBitVec_ofBitVec, toNat_signField, toNat_exponentField,
    toNat_fractionField]
  omega

theorem log2_normal (m : BitVec 52) :
    (1#1 ++ m).toNat = 2 ^ 52 + m.toNat ∧ (1#1 ++ m).toNat.log2 = 52 := by
  have hm : m.toNat < 2 ^ 52 := m.isLt
  have hM : (1#1 ++ m).toNat = 2 ^ 52 + m.toNat := by
    rw [BitVec.toNat_append, ← Nat.shiftLeft_add_eq_or_of_lt hm]
    rfl
  refine ⟨hM, ?_⟩
  rw [hM]
  apply Nat.le_antisymm
  · exact Nat.le_of_lt_succ ((Nat.log2_lt (by omega)).2 (by omega))
  · exact (Nat.le_log2 (by omega)).2 (by omega)

theorem unpack_eq (b : BitVec 64) :
    unpack Format.binary64 b =
      if exponentField b = -1#11 then
        if fractionField b = 0#52 then .infinity (Sign.ofBitVec (signField b)) else .notANumber
      else if exponentField b = 0#11 then
        if h : fractionField b = 0#52 then .zero (Sign.ofBitVec (signField b))
        else .finite (Sign.ofBitVec (signField b)) (fractionField b).toNat
          ((exponentField b).toNat - (1023 + 52) + 1)
          (by simpa [BitVec.toNat_pos, BitVec.pos_iff_ne_zero] using h)
      else .finite (Sign.ofBitVec (signField b)) (1#1 ++ fractionField b).toNat
        ((exponentField b).toNat - (1023 + 52))
        (by have := (log2_normal (fractionField b)).1; omega) :=
  rfl

theorem pack_finite (sign : Sign) (m : Nat) (e : Int) (hm : 0 < m) :
    pack Format.binary64 (.finite sign m e hm) =
      if 2 ^ 11 ≤ (e + 1023 + 52).toNat + 1 then packedInfinity Format.binary64 sign
      else if m.log2 + 1 = 53 then
        packComponents Format.binary64 sign (BitVec.ofNat 11 (e + 1023 + 52).toNat)
          (BitVec.ofNat 52 m)
      else packComponents Format.binary64 sign 0#11 (BitVec.ofNat 52 m) :=
  rfl

/-- Unpacking a pattern and packing what it stands for gives the pattern, if it stands for a number or
an infinity. -/
theorem pack_unpack (b : BitVec 64) (h : exponentField b = -1#11 → fractionField b = 0#52) :
    pack Format.binary64 (unpack Format.binary64 b) = b := by
  refine Eq.trans ?_ (packComponents_fields b)
  have hm : (fractionField b).toNat < 2 ^ 52 := (fractionField b).isLt
  have he : (exponentField b).toNat < 2048 := (exponentField b).isLt
  rw [unpack_eq]
  by_cases hinf : exponentField b = -1#11
  · rw [if_pos hinf, if_pos (h hinf), h hinf, hinf]
    rfl
  by_cases hsub : exponentField b = 0#11
  · rw [if_neg hinf, if_pos hsub]
    by_cases hzero : fractionField b = 0#52
    · rw [dif_pos hzero, hzero, hsub]
      rfl
    · have hlog : (fractionField b).toNat.log2 < 52 :=
        (Nat.log2_lt fun h0 => hzero (BitVec.eq_of_toNat_eq h0)).2 hm
      have hbiased : ((exponentField b).toNat - (1023 + 52) + 1 + 1023 + 52 : Int).toNat = 1 := by
        rw [hsub]
        rfl
      rw [dif_neg hzero, pack_finite, hbiased, if_neg (by decide), if_neg (by omega),
        BitVec.ofNat_toNat, BitVec.setWidth_eq, hsub]
  · rw [if_neg hinf, if_neg hsub]
    obtain ⟨hM, hlog⟩ := log2_normal (fractionField b)
    have hbiased : ((exponentField b).toNat - (1023 + 52) + 1023 + 52 : Int).toNat =
        (exponentField b).toNat := by omega
    have hlast : (exponentField b).toNat ≠ 2047 := fun h => hinf (BitVec.eq_of_toNat_eq h)
    rw [pack_finite, hbiased, hlog, hM, if_neg (by omega), if_pos rfl]
    congr 1
    · simp
    · apply BitVec.eq_of_toNat_eq
      simpa using hm

/-- A double made of the pattern of a number or an infinity has that pattern. -/
theorem toBits_ofBits (b : UInt64)
    (h : b.toNat / 2 ^ 52 % 2 ^ 11 = 2047 → b.toNat % 2 ^ 52 = 0) :
    (Float.ofBits b).toBits = b := by
  show UInt64.ofBitVec (pack Format.binary64 (unpack Format.binary64 b.toBitVec)) = b
  rw [pack_unpack]
  intro hinf
  apply BitVec.eq_of_toNat_eq
  rw [toNat_fractionField]
  apply h
  have := toNat_exponentField b.toBitVec
  rw [hinf] at this
  exact this.symm

theorem toBits_nearest (n : Nat) : (nearest n).toBits.toNat = nearestBits n := by
  have hle : nearestBits n ≤ infinityBits := nearestBits_le n
  unfold infinityBits at hle
  have hn : (UInt64.ofNat (nearestBits n)).toNat = nearestBits n :=
    UInt64.toNat_ofNat_of_lt' (Nat.lt_of_le_of_lt hle (by decide))
  rw [nearest, toBits_ofBits, hn]
  rw [hn]
  omega

theorem ofFloat_nearest (n : Nat) : Dyadic.ofFloat (nearest n) = Dyadic.ofBits (nearestBits n) := by
  rw [Dyadic.ofFloat, toBits_nearest]

theorem shift_bounds {n : Nat} (h0 : n ≠ 0) (h : n.log2 ≤ 52) :
    2 ^ 52 ≤ n * 2 ^ (52 - n.log2) ∧ n * 2 ^ (52 - n.log2) < 2 ^ 53 := by
  have hlow := Nat.mul_le_mul_right (2 ^ (52 - n.log2)) (Nat.log2_self_le h0)
  have hhigh := Nat.mul_lt_mul_of_pos_right (Nat.lt_log2_self (n := n))
    (Nat.two_pow_pos (52 - n.log2))
  rw [← Nat.pow_add] at hlow hhigh
  rw [show n.log2 + (52 - n.log2) = 52 by omega] at hlow
  rw [show n.log2 + 1 + (52 - n.log2) = 53 by omega] at hhigh
  exact ⟨hlow, hhigh⟩

theorem ofFloat_nearest_of_lt {n : Nat} (h0 : n ≠ 0) (h : n < 2 ^ 53) :
    Dyadic.ofFloat (nearest n) =
      .finite false (n * 2 ^ (52 - n.log2)) ((n.log2 : Int) - 52) := by
  have hlog : n.log2 < 53 := (Nat.log2_lt h0).2 h
  obtain ⟨hlow, hhigh⟩ := shift_bounds h0 (by omega)
  rw [ofFloat_nearest, nearestBits, if_neg h0]
  simp only [if_pos (show n.log2 ≤ 52 by omega), infinityBits]
  generalize n * 2 ^ (52 - n.log2) = m at hlow hhigh ⊢
  rw [Nat.min_eq_left (by omega), Dyadic.ofBits]
  have hsign : ((n.log2 + 1022) * 2 ^ 52 + m) / 2 ^ 63 % 2 = 0 := by omega
  have hexponent : ((n.log2 + 1022) * 2 ^ 52 + m) / 2 ^ 52 % 2 ^ 11 = n.log2 + 1023 := by omega
  have hfraction : ((n.log2 + 1022) * 2 ^ 52 + m) % 2 ^ 52 = m - 2 ^ 52 := by omega
  simp only [hsign, hexponent, hfraction]
  rw [if_neg (by omega), if_neg (by omega), Nat.sub_add_cancel hlow,
    show ((n.log2 + 1023 : Nat) : Int) - 1075 = (n.log2 : Int) - 52 by omega]
  rfl

/-- A number of at most fifty-three bits is a double. -/
theorem toInt?_nearest {n : Nat} (h : n < 2 ^ 53) :
    (Dyadic.ofFloat (nearest n)).toInt? = some n := by
  by_cases h0 : n = 0
  · subst h0
    rw [ofFloat_nearest,
      show Dyadic.ofBits (nearestBits 0) = .finite false 0 (Int.negSucc 1073) from rfl]
    simp only [Dyadic.toInt?, Nat.zero_mod, Nat.zero_div]
    rfl
  rw [ofFloat_nearest_of_lt h0 h]
  have hlog : n.log2 < 53 := (Nat.log2_lt h0).2 h
  by_cases htop : n.log2 = 52
  · rw [htop]
    simp [Dyadic.toInt?]
  · obtain ⟨k, hk⟩ : ∃ k, n.log2 + (k + 1) = 52 := ⟨51 - n.log2, by omega⟩
    rw [show ((n.log2 : Int) - 52) = Int.negSucc k by omega,
      show 52 - n.log2 = k + 1 by omega]
    simp only [Dyadic.toInt?, Nat.mul_mod_left, if_pos]
    rw [Nat.mul_div_cancel _ (Nat.two_pow_pos _)]
    simp

end CallScript.Decimal
