import CallScript.Decimal.Notation
import CallScript.Proofs.Text.Run
import Mathlib.Algebra.Order.Field.Rat
import Mathlib.Data.List.TakeWhile
import Mathlib.Tactic.FieldSimp
import Mathlib.Tactic.Ring

/-!
# Decimals, read again

What a text of digits says: a point may stand among the digits, and a power of ten behind an `e`.
Whatever the layout of a decimal, positional or scientific, its text says the rational number that the
decimal is.
-/

namespace CallScript.Decimal

/-- The rational number that a decimal is. -/
def Fraction.value (d : Fraction) : ℚ :=
  d.digits * 10 ^ d.exponent

variable {c : Char} {digits text : List Char}

def before (c : Char) (text : List Char) : List Char :=
  text.takeWhile (· != c)

def behind (c : Char) (text : List Char) : List Char :=
  (text.dropWhile (· != c)).tail

theorem before_append (h : c ∉ text) (rest : List Char) : before c (text ++ c :: rest) = text :=
  Text.takeWhile_append_of_stop (fun _ ha => by grind) (by simp)

theorem behind_append (h : c ∉ text) (rest : List Char) : behind c (text ++ c :: rest) = rest := by
  rw [behind, Text.dropWhile_append_of_stop (fun _ ha => by grind) (by simp), List.tail_cons]

theorem before_of_not_mem (h : c ∉ text) : before c text = text := by
  rw [before, List.takeWhile_eq_self_iff]
  grind

theorem behind_of_not_mem (h : c ∉ text) : behind c text = [] := by
  rw [behind, List.dropWhile_eq_nil_iff.2 (by grind), List.tail_nil]

def wholeReading (digits : List Char) : Nat :=
  Nat.ofDigitChars 10 digits 0

/-- The number that digits make if a point may stand among them. -/
def pointReading (text : List Char) : ℚ :=
  wholeReading (before '.' text ++ behind '.' text) * 10 ^ (-((behind '.' text).length : ℤ))

/-- The integer that digits make behind a sign. -/
def powerReading : List Char → ℤ
  | [] => 0
  | sign :: digits => if sign = '-' then -wholeReading digits else wholeReading digits

/-- The number that a text says, to the power of ten behind its `e`. -/
def reading (text : List Char) : ℚ :=
  pointReading (before 'e' text) * 10 ^ powerReading (behind 'e' text)

@[simp] theorem wholeReading_toDigits (n : Nat) : wholeReading (Nat.toDigits 10 n) = n :=
  Nat.ofDigitChars_ten_toDigits

@[simp] theorem wholeReading_zeros_append (n : Nat) (digits : List Char) :
    wholeReading (List.replicate n '0' ++ digits) = wholeReading digits := by
  simp [wholeReading, Nat.ofDigitChars_append, Nat.ofDigitChars_replicate_zero]

@[simp] theorem wholeReading_append_zeros (digits : List Char) (n : Nat) :
    wholeReading (digits ++ List.replicate n '0') = wholeReading digits * 10 ^ n := by
  simp [wholeReading, Nat.ofDigitChars_append, Nat.ofDigitChars_replicate_zero, Nat.mul_comm]

theorem pointReading_of_not_mem (h : '.' ∉ text) : pointReading text = wholeReading text := by
  simp [pointReading, before_of_not_mem h, behind_of_not_mem h]

theorem pointReading_append (h : '.' ∉ digits) (fraction : List Char) :
    pointReading (digits ++ '.' :: fraction) =
      wholeReading (digits ++ fraction) * 10 ^ (-(fraction.length : ℤ)) := by
  rw [pointReading, before_append h, behind_append h]

theorem reading_of_not_mem (h : 'e' ∉ text) : reading text = pointReading text := by
  simp [reading, before_of_not_mem h, behind_of_not_mem h, powerReading]

theorem reading_append (h : 'e' ∉ text) (power : List Char) :
    reading (text ++ 'e' :: power) = pointReading text * 10 ^ powerReading power := by
  rw [reading, before_append h, behind_append h]

theorem isDigit_of_mem_toDigits {n : Nat} (h : c ∈ Nat.toDigits 10 n) : c.isDigit = true :=
  Nat.isDigit_of_mem_toDigits (by decide : 0 < 10) (by decide) h

theorem not_mem_of_digits (h : ∀ c ∈ digits, c.isDigit = true) :
    '.' ∉ digits ∧ 'e' ∉ digits := by
  constructor <;> intro hmem <;> exact absurd (h _ hmem) (by decide)

theorem powerReading_exponentText (layout : Layout) (power : ℤ) :
    powerReading (exponentText layout power) = power := by
  rw [exponentText]
  by_cases h : power < 0
  · simp only [if_pos h, powerReading, if_true, wholeReading_zeros_append, wholeReading_toDigits]
    omega
  · simp only [if_neg h, powerReading, wholeReading_zeros_append, wholeReading_toDigits]
    rw [if_neg (by decide)]
    omega

/-- Digits with a point after the first `whole` of them. -/
theorem reading_positional (h : ∀ c ∈ digits, c.isDigit = true) (whole : ℤ) :
    reading (positional .literal digits whole) =
      wholeReading digits * 10 ^ (whole - digits.length) := by
  obtain ⟨hpoint, hmark⟩ := not_mem_of_digits h
  unfold positional
  split
  · next hwhole =>
    rw [reading_of_not_mem (by simp [hmark]), ← List.singleton_append,
      pointReading_append (by simp), ← List.append_assoc, ← List.replicate_one,
      ← List.replicate_add, wholeReading_zeros_append, List.length_append, List.length_replicate]
    congr 2
    omega
  · next hwhole =>
    dsimp only
    split
    · next hlength =>
      generalize hzeros : whole.toNat - digits.length = zeros
      have hmarked : Layout.literal.integerMark.toList = ['.', '0'] := rfl
      rw [hmarked, reading_of_not_mem (by simp [hmark]), pointReading_append (by simp [hpoint]),
        List.append_assoc, ← List.replicate_one, ← List.replicate_add, wholeReading_append_zeros,
        show whole - (digits.length : ℤ) = zeros by omega]
      push_cast
      rw [List.length_singleton, pow_succ, zpow_natCast]
      norm_num
      ring
    · next hlength =>
      have htake : '.' ∉ digits.take whole.toNat := fun hmem => hpoint (List.mem_of_mem_take hmem)
      rw [reading_of_not_mem, pointReading_append htake, List.take_append_drop, List.length_drop]
      · congr 2
        omega
      · have hdrop : 'e' ∉ digits.drop whole.toNat := fun hmem => hmark (List.mem_of_mem_drop hmem)
        have htake : 'e' ∉ digits.take whole.toNat := fun hmem => hmark (List.mem_of_mem_take hmem)
        simp [htake, hdrop]

/-- One digit and those behind the point, to a power of ten. -/
theorem reading_scientific (h : ∀ c ∈ digits, c.isDigit = true) (hne : digits ≠ []) (power : ℤ) :
    reading (scientific .literal digits power) =
      wholeReading digits * 10 ^ (power + 1 - digits.length) := by
  obtain ⟨hpoint, hmark⟩ := not_mem_of_digits h
  match digits with
  | [] => exact absurd rfl hne
  | [digit] =>
    rw [scientific, ← List.singleton_append, reading_append hmark, pointReading_of_not_mem hpoint,
      powerReading_exponentText]
    simp
  | digit :: next :: more =>
    have hsplit : scientific .literal (digit :: next :: more) power =
        (digit :: '.' :: next :: more) ++ 'e' :: exponentText .literal power := by
      simp [scientific]
    have hmark' : 'e' ∉ digit :: '.' :: next :: more := by simpa using hmark
    have hdigit : '.' ∉ [digit] := by
      simp only [List.mem_cons, not_or] at hpoint
      simpa using hpoint.1
    rw [hsplit, reading_append hmark', ← List.singleton_append, pointReading_append hdigit,
      powerReading_exponentText, List.singleton_append, mul_assoc, ← zpow_add₀ (by norm_num)]
    congr 2
    simp only [List.length_cons]
    omega

/-- The text of a decimal says what the decimal is. -/
theorem reading_decimal (d : Fraction) : reading (Layout.literal.decimal d) = d.value := by
  have hdigits : ∀ c ∈ Nat.toDigits 10 d.digits, c.isDigit = true := fun _ => isDigit_of_mem_toDigits
  rw [Layout.decimal, Fraction.value]
  by_cases hzero : d.digits = 0
  · simp only [hzero, if_true] at hdigits ⊢
    rw [if_pos (by decide), reading_positional hdigits, wholeReading_toDigits]
    simp
  · simp only [if_neg hzero]
    split
    · rw [reading_positional hdigits, wholeReading_toDigits]
      congr 2
      omega
    · rw [reading_scientific hdigits Nat.toDigits_ne_nil, wholeReading_toDigits]
      congr 2
      omega

end CallScript.Decimal
