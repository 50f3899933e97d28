import CallScript.Proofs.Decimal.Numeral
import CallScript.Proofs.Value.Equivalence
import CallScript.Value.Text

/-!
# Texts of numbers

The text of a finite number reads as a number that rounds to it, whether it has all the digits of an
integer or the shortest ones, and no word for what is not finite looks like a number. So numbers with
the same text are equal, or neither is one.
-/

namespace CallScript

namespace Decimal

variable {digits text : List Char}

def isNumeralChar (c : Char) : Bool :=
  c.isDigit || c == '.' || c == 'e' || c == '+' || c == '-'

/-- A text that begins with a digit and is made of what the numerals are made of. -/
structure IsNumeral (text : List Char) : Prop where
  first : text.head?.any Char.isDigit = true
  each : ∀ c ∈ text, isNumeralChar c = true

theorem isNumeralChar_of_isDigit {c : Char} (h : c.isDigit = true) : isNumeralChar c = true := by
  simp [isNumeralChar, h]

theorem isNumeralChar_of_mem_replicate {c : Char} {n : Nat} (h : c ∈ List.replicate n '0') :
    isNumeralChar c = true := by
  rw [List.eq_of_mem_replicate h]
  decide

theorem isNumeralChar_of_mem_toDigits {c : Char} {n : Nat} (h : c ∈ Nat.toDigits 10 n) :
    isNumeralChar c = true :=
  isNumeralChar_of_isDigit (isDigit_of_mem_toDigits h)

theorem isNumeralChar_of_mem_exponentText {layout : Layout} {power : ℤ} {c : Char}
    (h : c ∈ exponentText layout power) : isNumeralChar c = true := by
  simp only [exponentText, List.mem_cons, List.mem_append] at h
  rcases h with rfl | h | h
  · split <;> decide
  · exact isNumeralChar_of_mem_replicate h
  · exact isNumeralChar_of_mem_toDigits h

theorem IsNumeral.of_digits (h : ∀ c ∈ digits, c.isDigit = true) (hne : digits ≠ []) :
    IsNumeral digits := by
  obtain ⟨c, rest, rfl⟩ := List.exists_cons_of_ne_nil hne
  exact ⟨h c List.mem_cons_self, fun c hc => isNumeralChar_of_isDigit (h c hc)⟩

theorem IsNumeral.append (h : IsNumeral digits) (htext : ∀ c ∈ text, isNumeralChar c = true) :
    IsNumeral (digits ++ text) := by
  obtain ⟨first, each⟩ := h
  refine ⟨?_, List.forall_mem_append.2 ⟨each, htext⟩⟩
  cases digits with
  | nil => cases first
  | cons c rest => exact first

theorem isNumeral_positional (h : ∀ c ∈ digits, c.isDigit = true) (hne : digits ≠ []) (whole : ℤ) :
    IsNumeral (positional .literal digits whole) := by
  have hdigits := IsNumeral.of_digits h hne
  rw [positional]
  split
  · refine @IsNumeral.append ['0', '.'] _ ⟨rfl, by simp [isNumeralChar]⟩ ?_
    exact List.forall_mem_append.2 ⟨fun c => isNumeralChar_of_mem_replicate, hdigits.each⟩
  · dsimp only
    split
    · refine (hdigits.append fun c => isNumeralChar_of_mem_replicate).append ?_
      show ∀ c ∈ ['.', '0'], isNumeralChar c = true
      simp [isNumeralChar]
    · next hpositive hshort =>
      refine IsNumeral.append (.of_digits (fun c hc => h c (List.mem_of_mem_take hc)) ?_) ?_
      · simp only [ne_eq, List.take_eq_nil_iff, hne, or_false]
        omega
      · exact List.forall_mem_cons.2 ⟨by decide, fun c hc => hdigits.each c (List.mem_of_mem_drop hc)⟩

theorem isNumeral_scientific (h : ∀ c ∈ digits, c.isDigit = true) (hne : digits ≠ []) (power : ℤ) :
    IsNumeral (scientific .literal digits power) := by
  have hpower : ∀ c ∈ 'e' :: exponentText .literal power, isNumeralChar c = true :=
    List.forall_mem_cons.2 ⟨by decide, fun c => isNumeralChar_of_mem_exponentText⟩
  match digits with
  | [] => exact absurd rfl hne
  | [digit] => exact (IsNumeral.of_digits h hne).append hpower
  | digit :: next :: more =>
    obtain ⟨hdigit, hmore⟩ := List.forall_mem_cons.1 h
    have hfirst : IsNumeral [digit] := .of_digits (by simpa using hdigit) (by simp)
    refine hfirst.append (List.forall_mem_cons.2 ⟨by decide, List.forall_mem_append.2 ⟨?_, hpower⟩⟩)
    exact fun c hc => isNumeralChar_of_isDigit (hmore c hc)

theorem isNumeral_toDigits (n : Nat) : IsNumeral (Nat.toDigits 10 n) :=
  .of_digits (fun _ => isDigit_of_mem_toDigits) Nat.toDigits_ne_nil

theorem isNumeral_decimal (d : Fraction) : IsNumeral (Layout.literal.decimal d) := by
  have hdigits : ∀ c ∈ Nat.toDigits 10 d.digits, c.isDigit = true := fun _ => isDigit_of_mem_toDigits
  rw [Layout.decimal]
  generalize (if d.digits = 0 then (0 : ℤ) else _) = power
  split
  · exact isNumeral_positional hdigits Nat.toDigits_ne_nil _
  · exact isNumeral_scientific hdigits Nat.toDigits_ne_nil _

open Decimal.Dyadic Layout.write

variable {negative : Bool} {m : Nat} {e : ℤ} {d d' : Dyadic}

/-- What may be written for a double: a word for what is no finite number, `0` for both zeros, and
otherwise a numeral that reads as a number in the double's interval. -/
inductive Written : Dyadic → List Char → Prop where
  | nan : Written .nan ['N', 'a', 'N']
  | infinite {negative : Bool} :
      Written (.infinite negative) (signed negative ['I', 'n', 'f', 'i', 'n', 'i', 't', 'y'])
  | zero {negative : Bool} {exponent : ℤ} : Written (.finite negative 0 exponent) ['0']
  | finite {negative : Bool} {mantissa : Nat} {exponent : ℤ} {numeral : List Char}
      (positive : 0 < mantissa) (shape : IsNumeral numeral)
      (reads : (Interval.around mantissa exponent).Contains (reading numeral)) :
      Written (.finite negative mantissa exponent) (signed negative numeral)

theorem written_literal (h : 0 < m) (negative : Bool) (e : ℤ) :
    Written (.finite negative m e) (Layout.literal.write (.finite negative m e)) := by
  rw [Layout.write, if_neg h.ne']
  refine .finite h (isNumeral_decimal _) ?_
  rw [reading_decimal]
  exact contains_shortest h e

/-- A double that is an integer is a natural number with a sign. -/
theorem exists_of_toInt?_eq_some {n : ℤ} (h : (finite negative m e).toInt? = some n) :
    ∃ k : Nat, (k : ℚ) = m * 2 ^ e ∧ n = if negative then -(k : ℤ) else k := by
  cases e with
  | ofNat e =>
    simp only [toInt?, Option.some.injEq] at h
    exact ⟨m * 2 ^ e, by simp, h.symm⟩
  | negSucc e =>
    simp only [toInt?] at h
    split at h
    · next hmod =>
      simp only [Option.some.injEq] at h
      refine ⟨m / 2 ^ (e + 1), ?_, h.symm⟩
      rw [zpow_negSucc, ← div_eq_mul_inv, Nat.cast_div (Nat.dvd_of_mod_eq_zero hmod) (by simp)]
      push_cast
      rfl
    · cases h

theorem written_integer {n : ℤ} (h : 0 < m) (hn : (finite negative m e).toInt? = some n) :
    Written (.finite negative m e) (integerText n) := by
  obtain ⟨k, hk, rfl⟩ := exists_of_toInt?_eq_some hn
  have hself := contains_self h e
  have hpos : 0 < k := by exact_mod_cast hk ▸ pos_of_contains h hself
  have htext : integerText (if negative then -(k : ℤ) else k) = signed negative (Nat.toDigits 10 k) := by
    cases negative <;> (simp [integerText, signed]; try omega)
  rw [htext]
  refine .finite h (isNumeral_toDigits k) ?_
  obtain ⟨hpoint, hmark⟩ := not_mem_of_digits fun _ => @isDigit_of_mem_toDigits _ k
  rw [reading_of_not_mem hmark, pointReading_of_not_mem hpoint, wholeReading_toDigits, hk]
  exact hself

theorem written_numberText (x : Float) : Written (ofFloat x) (numberText x).toList := by
  rw [numberText, numeral]
  cases hx : ofFloat x with
  | nan => exact .nan
  | infinite negative =>
    cases negative with
    | false => exact @Written.infinite false
    | true => exact @Written.infinite true
  | finite negative m e =>
    rcases Nat.eq_zero_or_pos m with rfl | hm
    · have hzero : (finite negative 0 e).toInt? = some 0 := by
        cases e <;> simp [toInt?]
      simp only [hzero]
      rw [if_pos (by decide), String.toList_ofList]
      exact .zero
    · cases hn : (finite negative m e).toInt? with
      | none =>
        simp only [hn, String.toList_ofList]
        exact written_literal hm negative e
      | some n =>
        simp only [hn]
        split <;> rw [String.toList_ofList]
        · exact written_integer hm hn
        · exact written_literal hm negative e

/-- Both are zero, whatever their signs. -/
def BothZero (d d' : Dyadic) : Prop :=
  ∃ negative negative' e e', d = .finite negative 0 e ∧ d' = .finite negative' 0 e'

theorem IsNumeral.signed_inj {negative negative' : Bool} (h : IsNumeral digits) (h' : IsNumeral text)
    (heq : signed negative digits = signed negative' text) : negative = negative' ∧ digits = text := by
  have hfirst := h.first
  have hfirst' := h'.first
  cases negative <;> cases negative' <;> grind [signed]

def Dyadic.isFinite : Dyadic → Bool
  | .finite .. => true
  | _ => false

theorem Written.isFinite_eq (h : Written d text) : d.isFinite = text.any Char.isDigit := by
  cases h with
  | nan => decide
  | @infinite negative => cases negative <;> decide
  | zero => rfl
  | @finite negative m e numeral positive shape =>
    have hfirst := shape.first
    have hdigit : numeral.any Char.isDigit = true := by
      cases numeral with
      | nil => cases hfirst
      | cons c rest => exact List.any_eq_true.2 ⟨c, List.mem_cons_self, hfirst⟩
    cases negative <;> simp [signed, Dyadic.isFinite, hdigit]

theorem not_contains_zero (h : 0 < m) : ¬ (Interval.around m e).Contains (reading ['0']) := fun hzero => by
  have hpos := pos_of_contains h hzero
  rw [reading_of_not_mem (by decide), pointReading_of_not_mem (by decide)] at hpos
  exact absurd hpos (by decide)

/-- A text is written for one double only, but for the two zeros. -/
theorem Written.eq_or_bothZero {text' : List Char} (h : Written d text) (h' : Written d' text')
    (heq : text = text') (hd : ∀ s m e, d = .finite s m e → Normal m e)
    (hd' : ∀ s m e, d' = .finite s m e → Normal m e) : d = d' ∨ BothZero d d' := by
  have hfinite : d.isFinite = d'.isFinite := by rw [h.isFinite_eq, h'.isFinite_eq, heq]
  have hzero : IsNumeral ['0'] := isNumeral_toDigits 0
  cases h with
  | nan =>
    cases h' with
    | nan => exact .inl rfl
    | @infinite negative => cases negative <;> cases heq
    | zero | finite => cases hfinite
  | @infinite negative =>
    cases h' with
    | nan => cases negative <;> cases heq
    | @infinite negative' => cases negative <;> cases negative' <;> first | exact .inl rfl | cases heq
    | zero | finite => cases hfinite
  | @zero negative e =>
    cases h' with
    | nan | infinite => cases hfinite
    | @zero negative' e' => exact .inr ⟨negative, negative', e, e', rfl, rfl⟩
    | @finite negative' m e' numeral positive shape reads =>
      have heq : signed false ['0'] = signed negative' numeral := heq
      obtain ⟨-, rfl⟩ := hzero.signed_inj shape heq
      exact absurd reads (not_contains_zero positive)
  | @finite negative m e numeral positive shape reads =>
    cases h' with
    | nan | infinite => cases hfinite
    | zero =>
      have heq : signed negative numeral = signed false ['0'] := heq
      obtain ⟨-, rfl⟩ := shape.signed_inj hzero heq
      exact absurd reads (not_contains_zero positive)
    | finite positive' shape' reads' =>
      obtain ⟨rfl, rfl⟩ := shape.signed_inj shape' heq
      obtain ⟨rfl, rfl⟩ := eq_of_contains (hd _ _ _ rfl) (hd' _ _ _ rfl) reads reads'
      exact .inl rfl

end Decimal

/-- Numbers with the same text are equal, or neither of them is a number. -/
theorem beq_or_isNaN_of_numberText_eq {x y : Float} (h : numberText x = numberText y) :
    (x == y) = true ∨ x.isNaN = true ∧ y.isNaN = true := by
  have htext := congrArg String.toList h
  rcases (Decimal.written_numberText x).eq_or_bothZero (Decimal.written_numberText y) htext
      (fun _ _ _ => Decimal.Dyadic.normal_of_ofBits) (fun _ _ _ => Decimal.Dyadic.normal_of_ofBits)
    with hsame | ⟨s, s', e, e', hx, hy⟩
  · obtain rfl := Decimal.Dyadic.ofFloat_injective hsame
    rw [Value.beq_self_eq_not_isNaN, and_self]
    cases x.isNaN <;> simp
  · exact .inl (Decimal.Dyadic.beq_of_ofFloat_zero hx hy)

end CallScript
