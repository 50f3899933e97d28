import CallScript.Proofs.Grammar.Derivation
import CallScript.Proofs.Text.Run

/-!
# Reading the first token of an expression

The readers for strings, numbers and words take what the grammar allows, and take it whenever the
grammar allows it. Runs are unique, so what stands at the front of a text is one primary at most.
-/

namespace CallScript.Grammar

open Text

def Read.result {cs : List Char} (read : Read cs) : Expr × List Char :=
  (read.expr, read.rest)

theorem joinsDigits_of_isDigit {c : Char} (h : c.isDigit = true) : joinsDigits c = true := by
  simp [joinsDigits, Char.isAlphanum, h]

theorem toNat_of_joinsDigits {c : Char} (h : joinsDigits c = true) :
    (48 ≤ c.toNat ∧ c.toNat ≤ 57) ∨ (65 ≤ c.toNat ∧ c.toNat ≤ 90) ∨ c.toNat = 95 ∨
      (97 ≤ c.toNat ∧ c.toNat ≤ 122) := by
  have h : (c.isUpper || c.isLower || c.isDigit || c == '_') = true := h
  simp only [Bool.or_eq_true, beq_iff_eq] at h
  rcases h with ((hupper | hlower) | hdigit) | rfl
  · have hrange : 'A'.val ≤ c.val ∧ c.val ≤ 'Z'.val := of_decide_eq_true hupper
    exact .inr (.inl hrange)
  · have hrange := Bool.and_eq_true_iff.1 hlower
    exact .inr (.inr (.inr ⟨of_decide_eq_true hrange.1, of_decide_eq_true hrange.2⟩))
  · have hrange := Bool.and_eq_true_iff.1 hdigit
    exact .inl ⟨of_decide_eq_true hrange.1, of_decide_eq_true hrange.2⟩
  · exact .inr (.inr (.inl rfl))

theorem isBlank_of_joinsDigits {c : Char} (h : joinsDigits c = true) : isBlank c = false := by
  have hrange := toNat_of_joinsDigits h
  simp only [isBlank, Bool.or_eq_false_iff, Bool.and_eq_false_iff, decide_eq_false_iff_not,
    beq_eq_false_iff_ne]
  omega

theorem isBlank_of_isWordChar {c : Char} (h : isWordChar c = true) : isBlank c = false := by
  simp only [isWordChar, Bool.and_eq_true, Bool.not_eq_true'] at h
  exact h.1.1.1.1

theorem any_isDigit_of_boundary {rest : List Char} (h : rest.head?.any joinsDigits = false) :
    rest.head?.any Char.isDigit = false := by
  cases rest with
  | nil => rfl
  | cons c cs =>
    have hc : joinsDigits c = false := by simpa using h
    cases hd : c.isDigit with
    | false => simp [hd]
    | true => rw [joinsDigits_of_isDigit hd] at hc; cases hc

namespace Numeral

variable {cs digits rest : List Char}

theorem takeWhile_eq (h : Numeral cs digits rest) : cs.takeWhile Char.isDigit = digits := by
  rw [h.eq]
  exact takeWhile_append_of_stop h.digit (any_isDigit_of_boundary h.boundary)

theorem dropWhile_eq (h : Numeral cs digits rest) : cs.dropWhile Char.isDigit = rest := by
  rw [h.eq]
  exact dropWhile_append_of_stop h.digit (any_isDigit_of_boundary h.boundary)

/-- A number stands at the front exactly if the longest run of digits is one. -/
theorem exists_iff : (∃ digits rest, Numeral cs digits rest) ↔
    cs.head?.any Char.isDigit = true ∧
      (cs.dropWhile Char.isDigit).head?.any joinsDigits = false := by
  constructor
  · rintro ⟨digits, rest, h⟩
    refine ⟨?_, by rw [h.dropWhile_eq]; exact h.boundary⟩
    obtain ⟨c, more, rfl, hc⟩ := exists_cons_of_run h.nonempty h.digit
    rw [h.eq]
    simpa using hc
  · rintro ⟨hfirst, hstop⟩
    refine ⟨_, _, (List.takeWhile_append_dropWhile).symm, ?_, fun _ => of_mem_takeWhile, hstop⟩
    cases cs with
    | nil => simp at hfirst
    | cons c more =>
      rw [List.takeWhile_cons_of_pos (by simpa using hfirst)]
      exact List.cons_ne_nil _ _

end Numeral

theorem string?_eq_some_iff {cs rest : List Char} {e : Expr} :
    (string? cs).map Read.result = some (e, rest) ↔
      ∃ content, '"' ∉ content ∧ cs = content ++ '"' :: rest ∧ e = stringLiteral content := by
  constructor
  · intro h
    unfold string? at h
    split at h
    · simp at h
    · next c behind hdrop =>
      have hc : c = '"' := by simpa [hdrop] using any_head?_dropWhile (· != '"') cs
      simp only [Option.map_some, Read.result, Option.some.injEq, Prod.mk.injEq] at h
      obtain ⟨rfl, rfl⟩ := h
      refine ⟨cs.takeWhile (· != '"'), ?_, ?_, rfl⟩
      · intro hmem
        simpa using of_mem_takeWhile hmem
      · rw [← hc, ← hdrop, hc, List.takeWhile_append_dropWhile]
  · rintro ⟨content, hclosed, rfl, rfl⟩
    have hrun : ∀ c ∈ content, (c != '"') = true := by
      intro c hc
      rw [bne_iff_ne]
      rintro rfl
      exact hclosed hc
    have hstop : ('"' :: rest).head?.any (· != '"') = false := by simp
    have htake := takeWhile_append_of_stop hrun hstop
    have hdrop := dropWhile_append_of_stop hrun hstop
    unfold string?
    split
    · next h => simp [hdrop] at h
    · next c behind h =>
      rw [hdrop] at h
      cases h
      simp only [Option.map_some, Read.result, htake]

theorem number?_eq_some_iff {cs rest : List Char} {e : Expr} :
    (number? cs).map Read.result = some (e, rest) ↔
      ∃ digits, Numeral cs digits rest ∧ e = numberLiteral digits := by
  constructor
  · intro h
    unfold number? at h
    split at h
    · simp at h
    · next c more =>
      split at h
      · next hc =>
        dsimp only at h
        split at h
        · simp at h
        · next hstop =>
          simp only [Option.map_some, Read.result, Option.some.injEq, Prod.mk.injEq] at h
          obtain ⟨rfl, rfl⟩ := h
          refine ⟨_, ⟨(List.takeWhile_append_dropWhile).symm, ?_, fun _ => of_mem_takeWhile, ?_⟩, rfl⟩
          · rw [List.takeWhile_cons_of_pos hc]
            exact List.cons_ne_nil _ _
          · simpa using hstop
      · simp at h
  · rintro ⟨digits, hnum, rfl⟩
    obtain ⟨c, more, hdigits, hc⟩ := exists_cons_of_run hnum.nonempty hnum.digit
    obtain rfl : cs = c :: (more ++ rest) := by rw [hnum.eq, hdigits, List.cons_append]
    simp only [number?, hc, dif_pos, hnum.takeWhile_eq, hnum.dropWhile_eq, hnum.boundary,
      Bool.false_eq_true, if_false, Option.map_some, Read.result]

theorem number?_eq_none_iff {cs : List Char} :
    number? cs = none ↔ ∀ digits rest, ¬ Numeral cs digits rest := by
  constructor
  · intro h digits rest hnum
    have := number?_eq_some_iff.2 ⟨digits, hnum, rfl⟩
    simp [h] at this
  · intro h
    cases hn : number? cs with
    | none => rfl
    | some read =>
      have hread : (number? cs).map Read.result = some (read.expr, read.rest) := by
        rw [hn]
        rfl
      obtain ⟨digits, hnum, -⟩ := number?_eq_some_iff.1 hread
      exact absurd hnum (h _ _)

theorem word?_eq_some_iff {cs rest : List Char} {e : Expr} :
    (word? cs).map Read.result = some (e, rest) ↔
      ∃ name, name ≠ [] ∧ (∀ c ∈ name, isWordChar c = true) ∧ rest.head?.any isWordChar = false ∧
        cs = name ++ rest ∧ e = .word (String.ofList name) := by
  constructor
  · intro h
    unfold word? at h
    split at h
    · simp at h
    · next c more =>
      split at h
      · next hc =>
        simp only [Option.map_some, Read.result, Option.some.injEq, Prod.mk.injEq] at h
        obtain ⟨rfl, rfl⟩ := h
        refine ⟨_, ?_, fun _ => of_mem_takeWhile, any_head?_dropWhile _ _,
          (List.takeWhile_append_dropWhile).symm, rfl⟩
        rw [List.takeWhile_cons_of_pos hc]
        exact List.cons_ne_nil _ _
      · simp at h
  · rintro ⟨name, hne, hname, hstop, rfl, rfl⟩
    have htake := takeWhile_append_of_stop hname hstop
    have hdrop := dropWhile_append_of_stop hname hstop
    obtain ⟨c, more, rfl, hc⟩ := exists_cons_of_run hne hname
    rw [List.cons_append] at htake hdrop ⊢
    simp only [word?, hc, dif_pos, Option.map_some, Read.result, htake, hdrop]

theorem primary?_of_ne_quote {cs : List Char} (h : cs.head? ≠ some '"') :
    primary? cs = (number? cs <|> word? cs) := by
  unfold primary?
  split
  · simp at h
  · rfl

theorem Numeral.head?_ne_quote {cs digits rest : List Char} (h : Numeral cs digits rest) :
    cs.head? ≠ some '"' := by
  obtain ⟨c, more, hdigits, hc⟩ := exists_cons_of_run h.nonempty h.digit
  rw [h.eq, hdigits, List.cons_append, List.head?_cons]
  rintro ⟨rfl⟩
  exact absurd hc (by decide)

theorem head?_ne_quote_of_isWordChar {name rest : List Char} (hne : name ≠ [])
    (hname : ∀ c ∈ name, isWordChar c = true) : (name ++ rest).head? ≠ some '"' := by
  obtain ⟨c, more, rfl, hc⟩ := exists_cons_of_run hne hname
  rw [List.cons_append, List.head?_cons]
  rintro ⟨rfl⟩
  exact absurd hc (by decide)

/-- The reader of primaries answers as the grammar does. -/
theorem primary?_eq_some_iff {cs rest : List Char} {e : Expr} :
    (primary? cs).map Read.result = some (e, rest) ↔ Primary cs e rest := by
  constructor
  · intro h
    unfold primary? at h
    split at h
    · next content =>
      obtain ⟨text, hclosed, rfl, rfl⟩ := string?_eq_some_iff.1 h
      exact .string hclosed
    · cases hn : number? cs with
      | some read =>
        have hread : (number? cs).map Read.result = some (e, rest) := by
          rw [hn] at h ⊢
          exact h
        obtain ⟨digits, hnum, rfl⟩ := number?_eq_some_iff.1 hread
        exact .number hnum
      | none =>
        rw [hn] at h
        obtain ⟨name, hne, hname, hstop, rfl, rfl⟩ := word?_eq_some_iff.1 h
        exact .word (number?_eq_none_iff.1 hn) hne hname hstop
  · intro h
    cases h with
    | string closed => exact string?_eq_some_iff.2 ⟨_, closed, rfl, rfl⟩
    | number numeral =>
      rw [primary?_of_ne_quote numeral.head?_ne_quote]
      have hread := number?_eq_some_iff.2 ⟨_, numeral, rfl⟩
      cases hn : number? cs with
      | none => simp [hn] at hread
      | some read => simpa [hn] using hread
    | word noNumber nonempty char longest =>
      rw [primary?_of_ne_quote (head?_ne_quote_of_isWordChar nonempty char),
        number?_eq_none_iff.2 noNumber]
      exact word?_eq_some_iff.2 ⟨_, nonempty, char, longest, rfl, rfl⟩

end CallScript.Grammar
