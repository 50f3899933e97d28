import CallScript.Proofs.Grammar.RoundTrip

/-!
# Expressions in other surroundings

Of the text behind it, a derivation looks at the first character alone, and only at whether a word goes
on there. So the same characters derive the same expression wherever the text behind them begins alike,
or begins with nothing that a word could go on with.
-/

namespace CallScript.Grammar

open Text CallScript.Expr

variable {cs rest rest' : List Char} {e : Expr}

/-- The second text begins like the first one, or a word cannot go on with it. -/
def StopsAlike (rest rest' : List Char) : Prop :=
  rest'.head? = rest.head? ∨ rest'.head?.any isWordChar = false

/-- What ends before the first text ends before the second one too. -/
theorem StopsAlike.stop {p : Char → Bool} (hp : ∀ c, p c = true → isWordChar c = true)
    (h : StopsAlike rest rest') (hstop : rest.head?.any p = false) : rest'.head?.any p = false := by
  rcases h with hhead | hword
  · rwa [hhead]
  · cases rest' with
    | nil => rfl
    | cons c more =>
      have hc : isWordChar c = false := by simpa using hword
      cases hpc : p c with
      | false => simp [hpc]
      | true => rw [hp c hpc] at hc; cases hc

theorem stopsAlike_append {piece : List Char} (h : piece ≠ []) (rest rest' : List Char) :
    StopsAlike (piece ++ rest) (piece ++ rest') := by
  obtain ⟨c, more, rfl⟩ := List.exists_cons_of_ne_nil h
  exact .inl rfl

/-- Text goes on behind the rest with something that is no part of a word. -/
theorem stopsAlike_append_self {behind : List Char} (h : behind.head?.any isWordChar = false)
    (rest : List Char) : StopsAlike rest (rest ++ behind) := by
  cases rest with
  | nil => exact .inr h
  | cons c more => exact .inl rfl

/-- A text that is cut off behind the rest. -/
theorem stopsAlike_of_append {left behind : List Char} : StopsAlike (left ++ behind) left := by
  cases left with
  | nil => exact .inr rfl
  | cons c more => exact .inl rfl

/-- The text is a piece with that rest behind it, and so does the piece stand before other texts. -/
def Stands (derives : List Char → List Char → Prop) (cs rest : List Char) : Prop :=
  ∃ piece, piece ≠ [] ∧ cs = piece ++ rest ∧
    ∀ rest', StopsAlike rest rest' → derives (piece ++ rest') rest'

theorem Primary.stands (h : Primary cs e rest) : Stands (Primary · e ·) cs rest := by
  cases h with
  | @string content _ closed =>
    refine ⟨'"' :: (content ++ ['"']), List.cons_ne_nil _ _, by simp, fun rest' _ => ?_⟩
    rw [List.cons_append, List.append_assoc, List.singleton_append]
    exact .string closed
  | number numeral =>
    refine ⟨_, numeral.nonempty, numeral.eq, fun rest' hrest' => ?_⟩
    have hstop := hrest'.stop (fun c => isWordChar_of_joinsDigits) numeral.boundary
    exact .number ⟨rfl, numeral.nonempty, numeral.digit, hstop⟩
  | word noNumber nonempty char longest =>
    refine ⟨_, nonempty, rfl, fun rest' hrest' => ?_⟩
    have hname := (isName_iff nonempty char longest).2 noNumber
    exact primary_word hname (hrest'.stop (fun c => id) longest)

mutual

theorem Expression.stands {cs rest : List Char} {e : Expr} : Expression cs e rest →
    Stands (Expression · e ·) cs rest
  | @Expression.primary blanks _ _ _ blank first => by
    obtain ⟨token, hne, rfl, htoken⟩ := first.stands
    refine ⟨blanks ++ token, by simp [hne], by simp, fun rest' hrest' => ?_⟩
    rw [List.append_assoc]
    exact .primary blank (htoken rest' hrest')
  | @Expression.call _ blanks _ _ operator args before blank list => by
    obtain ⟨front, hne, rfl, hfront⟩ := before.stands
    obtain ⟨inside, -, rfl, hinside⟩ := list.stands
    refine ⟨front ++ (blanks ++ '(' :: inside), by simp [hne], by simp, fun rest' hrest' => ?_⟩
    have hbefore : Expression (front ++ (blanks ++ '(' :: (inside ++ rest'))) operator
        (blanks ++ '(' :: (inside ++ rest')) := by
      refine hfront _ ?_
      rw [← List.cons_append, ← List.cons_append, ← List.append_assoc, ← List.append_assoc]
      exact stopsAlike_append (by simp) _ _
    have hcall := Expression.call hbefore blank (hinside rest' hrest')
    simpa using hcall

theorem Arguments.stands {cs rest : List Char} {es : List Expr} : Arguments cs es rest →
    Stands (Arguments · es ·) cs rest
  | @Arguments.empty blanks _ blank => by
    refine ⟨blanks ++ [')'], by simp, by simp, fun rest' _ => ?_⟩
    rw [List.append_assoc, List.singleton_append]
    exact .empty blank
  | .nonempty first more => by
    obtain ⟨front, hne, rfl, hfront⟩ := first.stands
    obtain ⟨list, hlist, rfl, hmore⟩ := more.stands
    refine ⟨front ++ list, by simp [hne], by simp, fun rest' hrest' => ?_⟩
    rw [List.append_assoc]
    exact .nonempty (hfront _ (stopsAlike_append hlist _ _)) (hmore rest' hrest')

theorem MoreArguments.stands {cs rest : List Char} {es : List Expr} : MoreArguments cs es rest →
    Stands (MoreArguments · es ·) cs rest
  | @MoreArguments.close blanks _ blank => by
    refine ⟨blanks ++ [')'], by simp, by simp, fun rest' _ => ?_⟩
    rw [List.append_assoc, List.singleton_append]
    exact .close blank
  | @MoreArguments.closeAfterComma blanks blanks' _ blank blank' => by
    refine ⟨blanks ++ ',' :: (blanks' ++ [')']), by simp, by simp, fun rest' _ => ?_⟩
    have hlist := @MoreArguments.closeAfterComma blanks blanks' rest' blank blank'
    simpa using hlist
  | @MoreArguments.next blanks _ _ _ _ _ blank first more => by
    obtain ⟨front, hne, rfl, hfront⟩ := first.stands
    obtain ⟨list, hlist, rfl, hmore⟩ := more.stands
    refine ⟨blanks ++ ',' :: (front ++ list), by simp, by simp, fun rest' hrest' => ?_⟩
    have hnext := MoreArguments.next blank (hfront _ (stopsAlike_append hlist _ _)) (hmore rest' hrest')
    simpa using hnext

end

end CallScript.Grammar
