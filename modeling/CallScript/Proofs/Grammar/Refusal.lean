import CallScript.Proofs.Grammar.Acceptance

/-!
# Where a text is refused

A text that is no program is read up to some place and refused there, for one of three reasons: no
expression begins where one has to, an argument is followed by neither a comma nor the end of its list,
or a whole expression is followed by more than blanks. Relations say so in the manner of the grammar,
and reading refuses a text exactly as they say, if it may go deep enough.
-/

namespace CallScript.Grammar

open Text CallScript.Expr

variable {depth : Nat} {cs rest : List Char} {e : Expr} {es : List Expr} {refusal : Refusal}

mutual

/-- At the front of the text an expression is refused at that rest of it. -/
inductive ExpressionStops : List Char → Refusal → List Char → Prop where
  | first {cs : List Char} (noPrimary : ∀ e rest, ¬ Primary (skipBlanks cs) e rest) :
      ExpressionStops cs .unexpected (skipBlanks cs)
  | call {cs blanks inner rest : List Char} {operator : Expr} {refusal : Refusal}
      (before : Expression cs operator (blanks ++ '(' :: inner)) (blank : isBlankText blanks = true)
      (list : ArgumentsStop inner refusal rest) : ExpressionStops cs refusal rest

/-- Behind an opening parenthesis, or behind a comma in a list, the arguments are refused. -/
inductive ArgumentsStop : List Char → Refusal → List Char → Prop where
  | first {cs rest : List Char} {refusal : Refusal} (goesOn : (skipBlanks cs).head? ≠ some ')')
      (stops : ExpressionStops cs refusal rest) : ArgumentsStop cs refusal rest
  | more {cs behind rest : List Char} {e : Expr} {refusal : Refusal}
      (first : Expression cs e behind) (stops : MoreStop behind refusal rest) :
      ArgumentsStop cs refusal rest

/-- Behind an argument the rest of the list is refused. -/
inductive MoreStop : List Char → Refusal → List Char → Prop where
  | separator {cs : List Char} (noClose : (skipBlanks cs).head? ≠ some ')')
      (noComma : (skipBlanks cs).head? ≠ some ',') (noOpen : (skipBlanks cs).head? ≠ some '(') :
      MoreStop cs .expectedSeparator (skipBlanks cs)
  | next {blanks inner rest : List Char} {refusal : Refusal} (blank : isBlankText blanks = true)
      (stops : ArgumentsStop inner refusal rest) : MoreStop (blanks ++ ',' :: inner) refusal rest

end

/-- A program is refused: its expression is, or there is more behind it. -/
inductive ProgramStops : List Char → Refusal → List Char → Prop where
  | expression {cs rest : List Char} {refusal : Refusal} (stops : ExpressionStops cs refusal rest) :
      ProgramStops cs refusal rest
  | trailing {cs behind : List Char} {e : Expr} (whole : Expression cs e behind)
      (more : skipBlanks behind ≠ []) (noOpen : (skipBlanks behind).head? ≠ some '(') :
      ProgramStops cs .trailing (skipBlanks behind)

theorem noOpen_of_readCalls {cs rest : List Char} {e e' : Expr}
    (h : readCalls depth e cs = .ok (e', rest)) :
    skipBlanks rest = rest ∧ rest.head? ≠ some '(' := by
  induction hn : cs.length using Nat.strongRecOn generalizing cs e with
  | ind n ih =>
    by_cases hhead : (skipBlanks cs).head? = some '('
    · obtain ⟨inner, hopen⟩ := List.head?_eq_some_iff.1 hhead
      have hinner := length_lt_of_skipBlanks hopen
      rw [readCalls_open hopen] at h
      cases hlist : readArguments depth inner with
      | error failure => simp [hlist] at h
      | ok read =>
        have hlength := length_readArguments_lt hlist
        simp only [hlist] at h
        exact ih _ (by omega) h rfl
    · rw [readCalls_done hhead] at h
      cases h
      exact ⟨skipBlanks_skipBlanks cs, hhead⟩

theorem noOpen_of_readExpression (h : readExpression depth cs = .ok (e, rest)) :
    skipBlanks rest = rest ∧ rest.head? ≠ some '(' := by
  cases depth with
  | zero => cases h
  | succ depth =>
    by_cases hfirst : ∃ first left, Primary (skipBlanks cs) first left
    · obtain ⟨first, left, hfirst⟩ := hfirst
      rw [readExpression_primary hfirst] at h
      exact noOpen_of_readCalls h
    · simp only [not_exists] at hfirst
      rw [readExpression_refused hfirst] at h
      cases h

/-- What a refusal by the reader of expressions at some depth tells about the text. -/
def StopsWhereRefused (depth : Nat) : Prop :=
  ∀ {cs rest : List Char} {refusal : Refusal},
    readExpression depth cs = .error (.refused refusal rest) → ExpressionStops cs refusal rest

theorem readArguments_stops (hread : StopsWhereRefused depth) {cs rest : List Char}
    {refusal : Refusal} (h : readArguments depth cs = .error (.refused refusal rest)) :
    ArgumentsStop cs refusal rest := by
  induction hn : cs.length using Nat.strongRecOn generalizing cs with
  | ind n ih =>
    by_cases hhead : (skipBlanks cs).head? = some ')'
    · obtain ⟨behind, hclose⟩ := List.head?_eq_some_iff.1 hhead
      rw [readArguments_close hclose] at h
      cases h
    · rw [readArguments_first hhead] at h
      cases hfirst : readExpression depth cs with
      | error failure =>
        simp only [hfirst, Except.error.injEq] at h
        exact .first hhead (hread (h ▸ hfirst))
      | ok read =>
        obtain ⟨e, left⟩ := read
        have hlength := length_readExpression_lt hfirst
        obtain ⟨-, hopen⟩ := noOpen_of_readExpression hfirst
        obtain ⟨-, behind, hexpr, rfl⟩ := derivesWhatIsRead depth hfirst
        refine .more hexpr ?_
        simp only [hfirst] at h
        unfold readMore at h
        rw [skipBlanks_skipBlanks] at h
        split at h
        · cases h
        · next inner hcomma =>
          cases hmore : readArguments depth inner with
          | ok list => simp [hmore] at h
          | error failure =>
            simp only [hmore, Except.error.injEq] at h
            rw [hcomma, List.length_cons] at hlength
            have hrest := ih _ (by omega) (h ▸ hmore) rfl
            obtain ⟨blanks, hblanks, rfl⟩ := eq_of_skipBlanks_eq hcomma
            exact .next hblanks hrest
        · next hclose hcomma =>
          cases h
          refine .separator (fun hc => ?_) (fun hc => ?_) hopen
          · obtain ⟨after, hc⟩ := List.head?_eq_some_iff.1 hc
            exact hclose after hc
          · obtain ⟨after, hc⟩ := List.head?_eq_some_iff.1 hc
            exact hcomma after hc

theorem readCalls_stops (hread : StopsWhereRefused depth) {start cs rest : List Char} {e : Expr}
    {refusal : Refusal} (hstart : Expression start e cs)
    (h : readCalls depth e cs = .error (.refused refusal rest)) :
    ExpressionStops start refusal rest := by
  induction hn : cs.length using Nat.strongRecOn generalizing cs e with
  | ind n ih =>
    by_cases hhead : (skipBlanks cs).head? = some '('
    · obtain ⟨inner, hopen⟩ := List.head?_eq_some_iff.1 hhead
      have hinner := length_lt_of_skipBlanks hopen
      rw [readCalls_open hopen] at h
      obtain ⟨blanks, hblanks, rfl⟩ := eq_of_skipBlanks_eq hopen
      cases hlist : readArguments depth inner with
      | error failure =>
        simp only [hlist, Except.error.injEq] at h
        exact .call hstart hblanks (readArguments_stops hread (h ▸ hlist))
      | ok read =>
        obtain ⟨args, left⟩ := read
        have hlength := length_readArguments_lt hlist
        have hargs := (readArguments_sound (derivesWhatIsRead depth) hlist).2
        simp only [hlist] at h
        exact ih _ (by omega) (.call hstart hblanks hargs) h rfl
    · rw [readCalls_done hhead] at h
      cases h

theorem stopsWhereRefused : ∀ depth, StopsWhereRefused depth
  | 0, _, _, _, h => by cases h
  | depth + 1, cs, rest, refusal, h => by
    by_cases hfirst : ∃ first left, Primary (skipBlanks cs) first left
    · obtain ⟨first, left, hfirst⟩ := hfirst
      rw [readExpression_primary hfirst] at h
      obtain ⟨blanks, hblanks, hcs⟩ := exists_blanks cs
      have hstart : Expression cs first left := hcs ▸ .primary hblanks hfirst
      exact readCalls_stops (stopsWhereRefused depth) hstart h
    · simp only [not_exists] at hfirst
      rw [readExpression_refused hfirst] at h
      cases h
      exact .first hfirst

theorem program_stops (h : program depth cs = .error (.refused refusal rest)) :
    ProgramStops cs refusal rest := by
  rw [program_eq] at h
  cases hread : readExpression depth cs with
  | error failure =>
    simp only [hread, Except.error.injEq] at h
    exact .expression (stopsWhereRefused depth (h ▸ hread))
  | ok read =>
    obtain ⟨e, left⟩ := read
    obtain ⟨-, hopen⟩ := noOpen_of_readExpression hread
    obtain ⟨-, behind, hexpr, rfl⟩ := derivesWhatIsRead depth hread
    simp only [hread, skipBlanks_skipBlanks] at h
    split at h
    · cases h
    · next hmore =>
      cases h
      exact .trailing hexpr hmore hopen

/-- The answer is that refusal, unless the limit on nesting is reached before it. -/
def Refuses {α : Type} (answer : Except Failure α) (refusal : Refusal) (rest : List Char) : Prop :=
  answer = .error (.refused refusal rest) ∨ answer = .error .tooDeep

theorem MoreStop.head?_ne_open (h : MoreStop cs refusal rest) :
    (skipBlanks cs).head? ≠ some '(' := by
  cases h with
  | separator noClose noComma noOpen => exact noOpen
  | next blank stops => simp [skipBlanks_blanks_cons blank (show isBlank ',' = false by decide)]

mutual

theorem ExpressionStops.refuses {cs rest : List Char} {refusal : Refusal} :
    ExpressionStops cs refusal rest → ∀ depth, Refuses (readExpression depth cs) refusal rest
  | _, 0 => .inr readExpression_zero
  | .first noPrimary, _ + 1 => .inl (readExpression_refused noPrimary)
  | @ExpressionStops.call _ _ inner _ operator _ before blank list, depth + 1 => by
    have hopen : skipBlanks (_ ++ '(' :: inner) = '(' :: inner :=
      skipBlanks_blanks_cons blank (by decide)
    rw [before.read depth, ifRoom]
    by_cases hroom : operator.callDepth ≤ depth
    · rw [if_pos hroom, readCalls_open hopen]
      rcases list.refuses depth with h | h <;> rw [h]
      · exact .inl rfl
      · exact .inr rfl
    · exact .inr (if_neg hroom)

theorem ArgumentsStop.refuses {cs rest : List Char} {refusal : Refusal} :
    ArgumentsStop cs refusal rest → ∀ depth, Refuses (readArguments depth cs) refusal rest
  | .first goesOn stops, depth => by
    rw [readArguments_first goesOn]
    rcases stops.refuses depth with h | h <;> rw [h]
    · exact .inl rfl
    · exact .inr rfl
  | @ArgumentsStop.more _ behind _ e _ first stops, 0 => by
    rw [readArguments_first first.head?_ne_close, readExpression_zero]
    exact .inr rfl
  | @ArgumentsStop.more _ behind _ e _ first stops, depth + 1 => by
    rw [readArguments_first first.head?_ne_close, first.read depth, ifRoom]
    by_cases hroom : e.callDepth ≤ depth
    · rw [if_pos hroom, readCalls_done stops.head?_ne_open]
      exact stops.refuses (depth + 1) e
    · rw [if_neg hroom]
      exact .inr rfl

theorem MoreStop.refuses {cs rest : List Char} {refusal : Refusal} :
    MoreStop cs refusal rest → ∀ depth e, Refuses (readMore depth e (skipBlanks cs)) refusal rest
  | .separator noClose noComma _, depth, e => by
    rw [readMore_refused] <;> rw [skipBlanks_skipBlanks]
    · exact .inl rfl
    · exact noClose
    · exact noComma
  | @MoreStop.next blanks inner _ _ blank stops, depth, e => by
    have hcomma : skipBlanks (skipBlanks (blanks ++ ',' :: inner)) = ',' :: inner := by
      rw [skipBlanks_skipBlanks]
      exact skipBlanks_blanks_cons blank (by decide)
    rw [readMore_comma hcomma]
    rcases stops.refuses depth with h | h <;> rw [h]
    · exact .inl rfl
    · exact .inr rfl

end

theorem ProgramStops.refuses (h : ProgramStops cs refusal rest) (depth : Nat) :
    Refuses (program depth cs) refusal rest := by
  rw [program_eq]
  cases h with
  | expression stops =>
    rcases stops.refuses depth with h | h <;> rw [h]
    · exact .inl rfl
    · exact .inr rfl
  | @trailing _ e whole more noOpen =>
    cases depth with
    | zero => exact .inr rfl
    | succ depth =>
      rw [whole.read depth, ifRoom]
      by_cases hroom : e.callDepth ≤ depth
      · rw [if_pos hroom, readCalls_done noOpen]
        refine .inl ?_
        simp only [skipBlanks_skipBlanks, if_neg more]
      · rw [if_neg hroom]
        exact .inr rfl

theorem ProgramStops.not_program (h : ProgramStops cs refusal rest) : ¬ Program cs e := by
  intro hprogram
  have hread := hprogram.read (e.callDepth + 1)
  rw [if_pos (Nat.lt_succ_self _)] at hread
  rcases h.refuses (e.callDepth + 1) with hrefused | hdeep
  · cases hread.symm.trans hrefused
  · cases hread.symm.trans hdeep

end CallScript.Grammar
