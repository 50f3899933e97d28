import CallScript.Proofs.Grammar.Placement

/-!
# Blanks behind a text

Blanks behind a text make no difference to reading it, but that they are left behind too. What was
read is the same expression, and what was refused is refused for the same reason and at the same
character, unless it was the end of the text.
-/

namespace CallScript.Grammar

open Text

variable {depth : Nat} {blanks cs cs' rest more : List Char} {e : Expr}

/-- Up to blanks before it, the second text is the first one with blanks behind it. -/
def Ahead (blanks cs cs' : List Char) : Prop :=
  skipBlanks cs' = skipBlanks (cs ++ blanks)

/-- Two answers about texts of which the second is the first one with blanks behind it. -/
inductive Padded {α : Type} (blanks : List Char) :
    Except Failure (α × List Char) → Except Failure (α × List Char) → Prop where
  | ok {a rest rest'} (behind : Ahead blanks rest rest') : Padded blanks (.ok (a, rest)) (.ok (a, rest'))
  | refused {refusal rest} :
      Padded blanks (.error (.refused refusal rest)) (.error (.refused refusal (skipBlanks (rest ++ blanks))))
  | tooDeep : Padded blanks (.error .tooDeep) (.error .tooDeep)

theorem Ahead.cons {c : Char} (h : Ahead blanks cs cs') (hcs : skipBlanks cs = c :: more) :
    skipBlanks cs' = c :: (more ++ blanks) := by
  obtain ⟨front, hfront, rfl⟩ := eq_of_skipBlanks_eq hcs
  rw [h, List.append_assoc, List.cons_append,
    skipBlanks_blanks_cons hfront (isBlank_of_skipBlanks_eq_cons hcs)]

theorem skipBlanks_append_blanks (cs : List Char) :
    skipBlanks (skipBlanks cs ++ blanks) = skipBlanks (cs ++ blanks) := by
  obtain ⟨front, hfront, hcs⟩ := exists_blanks cs
  conv => rhs; rw [hcs, List.append_assoc, skipBlanks_append hfront]

variable (hblanks : isBlankText blanks = true)
include hblanks

theorem Ahead.nil (h : Ahead blanks cs cs') (hcs : skipBlanks cs = []) : skipBlanks cs' = [] := by
  rw [h, skipBlanks_append (skipBlanks_eq_nil_iff.1 hcs), skipBlanks_eq_nil_iff, hblanks]

theorem Ahead.head? (h : Ahead blanks cs cs') : (skipBlanks cs').head? = (skipBlanks cs).head? := by
  cases hcs : skipBlanks cs with
  | nil => rw [h.nil hblanks hcs]
  | cons c more =>
    rw [h.cons hcs]
    rfl

theorem no_word_in_blanks : blanks.head?.any isWordChar = false := by
  cases blanks with
  | nil => rfl
  | cons c more =>
    have hc : isBlank c = true := isBlank_of_mem hblanks List.mem_cons_self
    cases hword : isWordChar c with
    | false => simp [hword]
    | true => rw [isBlank_of_isWordChar hword] at hc; cases hc

theorem Primary.append_blanks (h : Primary cs e rest) : Primary (cs ++ blanks) e (rest ++ blanks) := by
  obtain ⟨piece, -, rfl, hpiece⟩ := h.stands
  rw [List.append_assoc]
  exact hpiece _ (stopsAlike_append_self (no_word_in_blanks hblanks) rest)

omit hblanks in
/-- Whether an expression begins with a character depends on no more than what closes a string. -/
theorem exists_primary_iff {c : Char} : (∃ e rest, Primary (c :: cs) e rest) ↔
    (c = '"' ∧ '"' ∈ cs) ∨ isWordChar c = true := by
  constructor
  · rintro ⟨e, rest, h⟩
    generalize hcs : c :: cs = text at h
    cases h with
    | string closed =>
      cases hcs
      exact .inl ⟨rfl, by simp⟩
    | number numeral =>
      obtain ⟨d, digits, hdigits, hd⟩ := exists_cons_of_run numeral.nonempty numeral.digit
      have hfirst := numeral.eq
      rw [← hcs, hdigits, List.cons_append, List.cons.injEq] at hfirst
      exact .inr (hfirst.1 ▸ isWordChar_of_joinsDigits (joinsDigits_of_isDigit hd))
    | word noNumber nonempty char longest =>
      obtain ⟨d, name, rfl, hd⟩ := exists_cons_of_run nonempty char
      rw [List.cons_append, List.cons.injEq] at hcs
      exact .inr (hcs.1 ▸ hd)
  · rintro (⟨rfl, hmem⟩ | hc)
    · obtain ⟨content, rest, rfl, hclosed⟩ := List.eq_append_cons_of_mem hmem
      exact ⟨_, rest, .string hclosed⟩
    · by_cases hnumber : ∃ digits rest, Numeral (c :: cs) digits rest
      · obtain ⟨digits, rest, hnumber⟩ := hnumber
        exact ⟨_, rest, .number hnumber⟩
      · simp only [not_exists] at hnumber
        have hsplit := List.takeWhile_append_dropWhile (p := isWordChar) (l := c :: cs)
        have hname : (c :: cs).takeWhile isWordChar ≠ [] := by
          rw [List.takeWhile_cons_of_pos hc]
          exact List.cons_ne_nil _ _
        have hword := @Primary.word _ _ (by rwa [hsplit]) hname (fun _ => of_mem_takeWhile)
          (any_head?_dropWhile isWordChar (c :: cs))
        rw [hsplit] at hword
        exact ⟨_, _, hword⟩

theorem no_primary_append_blanks {c : Char}
    (h : ∀ e rest, ¬ Primary (c :: more) e rest) (e : Expr) (rest : List Char) :
    ¬ Primary (c :: (more ++ blanks)) e rest := by
  intro hprimary
  have hblank : '"' ∉ blanks := fun hmem => absurd (isBlank_of_mem hblanks hmem) (by decide)
  rcases exists_primary_iff.1 ⟨e, rest, hprimary⟩ with ⟨hc, hmem⟩ | hc
  · have hmem := (List.mem_append.1 hmem).resolve_right hblank
    obtain ⟨e', rest', h'⟩ := exists_primary_iff.2 (.inl ⟨hc, hmem⟩)
    exact h e' rest' h'
  · obtain ⟨e', rest', h'⟩ := exists_primary_iff.2 (.inr hc)
    exact h e' rest' h'

/-- Expressions are read alike from a text and from the text with blanks behind it. -/
def PadsExpressions (blanks : List Char) (depth : Nat) : Prop :=
  ∀ {cs cs' : List Char}, Ahead blanks cs cs' →
    Padded blanks (readExpression depth cs) (readExpression depth cs')

theorem padded_readArguments (hread : PadsExpressions blanks depth) {cs cs' : List Char}
    (h : Ahead blanks cs cs') : Padded blanks (readArguments depth cs) (readArguments depth cs') := by
  induction hn : cs.length using Nat.strongRecOn generalizing cs cs' with
  | ind n ih =>
    have hhead' := h.head? hblanks
    by_cases hhead : (skipBlanks cs).head? = some ')'
    · obtain ⟨behind, hclose⟩ := List.head?_eq_some_iff.1 hhead
      rw [readArguments_close hclose, readArguments_close (h.cons hclose)]
      exact .ok rfl
    · have hfirst := hread h
      rw [readArguments_first hhead, readArguments_first (hhead' ▸ hhead)]
      generalize hx : readExpression depth cs = x at hfirst
      generalize readExpression depth cs' = x' at hfirst
      cases hfirst with
      | tooDeep => exact .tooDeep
      | refused => exact .refused
      | @ok e left left' hleft =>
        have hlength := length_readExpression_lt hx
        have hleft' := hleft.head? hblanks
        by_cases hclose : (skipBlanks left).head? = some ')'
        · obtain ⟨behind, hclose⟩ := List.head?_eq_some_iff.1 hclose
          simp only [readMore_close hclose, readMore_close (hleft.cons hclose)]
          exact .ok rfl
        · by_cases hcomma : (skipBlanks left).head? = some ','
          · obtain ⟨inner, hcomma⟩ := List.head?_eq_some_iff.1 hcomma
            have hinner := length_lt_of_skipBlanks hcomma
            have hmore := @ih inner.length (by omega) inner (inner ++ blanks) rfl rfl
            simp only [readMore_comma hcomma, readMore_comma (hleft.cons hcomma)]
            generalize readArguments depth inner = y at hmore
            generalize readArguments depth (inner ++ blanks) = y' at hmore
            cases hmore with
            | tooDeep => exact .tooDeep
            | refused => exact .refused
            | ok hbehind => exact .ok hbehind
          · simp only [readMore_refused hclose hcomma,
              readMore_refused (hleft' ▸ hclose) (hleft' ▸ hcomma)]
            rw [hleft, ← skipBlanks_append_blanks]
            exact .refused

theorem padded_readCalls (hread : PadsExpressions blanks depth) {cs cs' : List Char} {e : Expr}
    (h : Ahead blanks cs cs') : Padded blanks (readCalls depth e cs) (readCalls depth e cs') := by
  induction hn : cs.length using Nat.strongRecOn generalizing cs cs' e with
  | ind n ih =>
    have hhead' := h.head? hblanks
    by_cases hhead : (skipBlanks cs).head? = some '('
    · obtain ⟨inner, hopen⟩ := List.head?_eq_some_iff.1 hhead
      have hinner := length_lt_of_skipBlanks hopen
      have hlist := @padded_readArguments depth blanks hblanks hread inner (inner ++ blanks) rfl
      rw [readCalls_open hopen, readCalls_open (h.cons hopen)]
      generalize hx : readArguments depth inner = x at hlist
      generalize readArguments depth (inner ++ blanks) = x' at hlist
      cases hlist with
      | tooDeep => exact .tooDeep
      | refused => exact .refused
      | @ok args left left' hleft =>
        have hlength := length_readArguments_lt hx
        exact ih _ (by omega) hleft rfl
    · rw [readCalls_done hhead, readCalls_done (hhead' ▸ hhead), h, ← skipBlanks_append_blanks]
      exact .ok (skipBlanks_skipBlanks _)

theorem padsExpressions : ∀ depth, PadsExpressions blanks depth
  | 0, _, _, _ => .tooDeep
  | depth + 1, cs, cs', h => by
    by_cases hfirst : ∃ first left, Primary (skipBlanks cs) first left
    · obtain ⟨first, left, hfirst⟩ := hfirst
      have hfirst' : Primary (skipBlanks cs') first (left ++ blanks) := by
        obtain ⟨c, more, hcs, -, -⟩ := hfirst.head
        rw [h.cons hcs, ← List.cons_append, ← hcs]
        exact hfirst.append_blanks hblanks
      rw [readExpression_primary hfirst, readExpression_primary hfirst']
      exact padded_readCalls hblanks (padsExpressions depth) rfl
    · simp only [not_exists] at hfirst
      have hfirst' : ∀ e rest, ¬ Primary (skipBlanks cs') e rest := by
        cases hcs : skipBlanks cs with
        | nil =>
          rw [h.nil hblanks hcs]
          intro e rest hprimary
          obtain ⟨c, more, hnil, -, -⟩ := hprimary.head
          cases hnil
        | cons c more =>
          rw [h.cons hcs]
          exact no_primary_append_blanks hblanks (hcs ▸ hfirst)
      rw [readExpression_refused hfirst, readExpression_refused hfirst', h,
        ← skipBlanks_append_blanks]
      exact .refused

/-- A program with blanks behind it. -/
theorem program_append_blanks (depth : Nat) (cs : List Char) :
    program depth (cs ++ blanks) = match program depth cs with
      | .ok e => .ok e
      | .error .tooDeep => .error .tooDeep
      | .error (.refused refusal rest) => .error (.refused refusal (skipBlanks (rest ++ blanks))) := by
  have hread := @padsExpressions blanks hblanks depth cs (cs ++ blanks) rfl
  rw [program_eq, program_eq]
  generalize readExpression depth cs = x at hread
  generalize readExpression depth (cs ++ blanks) = x' at hread
  cases hread with
  | tooDeep => rfl
  | refused => rfl
  | @ok e rest rest' behind =>
    by_cases hrest : skipBlanks rest = []
    · simp only [hrest, behind.nil hblanks hrest, if_true]
    · obtain ⟨c, more, hcons⟩ := List.exists_cons_of_ne_nil hrest
      have hrest' : skipBlanks rest' ≠ [] := by
        rw [behind.cons hcons]
        exact List.cons_ne_nil _ _
      simp only [if_neg hrest, if_neg hrest', skipBlanks_append_blanks]
      rw [behind]

end CallScript.Grammar
