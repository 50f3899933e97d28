import CallScript.Proofs.Grammar.Acceptance

/-!
# Parsing with more depth

The limit on nesting decides only whether a text is read to its end or to the place where it is refused.
Reading that does not run into the limit comes to the same with more levels: the same tree, or the same
refusal at the same place.
-/

namespace CallScript.Grammar

open Text

variable {depth depth' : Nat} {cs : List Char} {e : Expr}

/-- The first answer is that the limit was reached, or both answers are the same. -/
def SameUpToDepth {ε α : Type} (limit : ε) (answer answer' : Except ε α) : Prop :=
  answer = .error limit ∨ answer' = answer

/-- Reading an expression comes to the same with one level more, wherever it begins. -/
def ReadsUpToDepth (depth : Nat) : Prop :=
  ∀ cs, SameUpToDepth .tooDeep (readExpression depth cs) (readExpression (depth + 1) cs)

theorem readArguments_upToDepth (hread : ReadsUpToDepth depth) (cs : List Char) :
    SameUpToDepth .tooDeep (readArguments depth cs) (readArguments (depth + 1) cs) := by
  induction hn : cs.length using Nat.strongRecOn generalizing cs with
  | ind n ih =>
    by_cases hhead : (skipBlanks cs).head? = some ')'
    · obtain ⟨behind, hclose⟩ := List.head?_eq_some_iff.1 hhead
      rw [readArguments_close hclose, readArguments_close hclose]
      exact .inr rfl
    · rw [readArguments_first hhead, readArguments_first hhead]
      rcases hread cs with hdeep | hsame
      · rw [hdeep]
        exact .inl rfl
      · rw [hsame]
        cases hfirst : readExpression depth cs with
        | error failure => exact .inr rfl
        | ok read =>
          obtain ⟨e, left⟩ := read
          have hlength := length_readExpression_lt hfirst
          dsimp only
          by_cases hcomma : (skipBlanks left).head? = some ','
          · obtain ⟨inner, hcomma⟩ := List.head?_eq_some_iff.1 hcomma
            have hinner := length_lt_of_skipBlanks hcomma
            rw [readMore_comma hcomma, readMore_comma hcomma]
            rcases ih inner.length (by omega) inner rfl with hdeep | hsame
            · rw [hdeep]
              exact .inl rfl
            · rw [hsame]
              exact .inr rfl
          · refine .inr ?_
            unfold readMore
            split
            · rfl
            · next hfound => simp [hfound] at hcomma
            · rfl

theorem readCalls_upToDepth (hread : ReadsUpToDepth depth) (e : Expr) (cs : List Char) :
    SameUpToDepth .tooDeep (readCalls depth e cs) (readCalls (depth + 1) e cs) := by
  induction hn : cs.length using Nat.strongRecOn generalizing cs e with
  | ind n ih =>
    by_cases hhead : (skipBlanks cs).head? = some '('
    · obtain ⟨inner, hopen⟩ := List.head?_eq_some_iff.1 hhead
      have hinner := length_lt_of_skipBlanks hopen
      rw [readCalls_open hopen, readCalls_open hopen]
      rcases readArguments_upToDepth hread inner with hdeep | hsame
      · rw [hdeep]
        exact .inl rfl
      · rw [hsame]
        cases hlist : readArguments depth inner with
        | error failure => exact .inr rfl
        | ok read =>
          obtain ⟨args, left⟩ := read
          have hlength := length_readArguments_lt hlist
          exact ih left.length (by omega) (.apply e args) left rfl
    · rw [readCalls_done hhead, readCalls_done hhead]
      exact .inr rfl

theorem readExpression_upToDepth : ∀ depth, ReadsUpToDepth depth
  | 0, _ => .inl rfl
  | depth + 1, cs => by
    by_cases hfirst : ∃ first left, Primary (skipBlanks cs) first left
    · obtain ⟨first, left, hfirst⟩ := hfirst
      rw [readExpression_primary hfirst, readExpression_primary hfirst]
      exact readCalls_upToDepth (readExpression_upToDepth depth) first left
    · simp only [not_exists] at hfirst
      rw [readExpression_refused hfirst, readExpression_refused hfirst]
      exact .inr rfl

theorem program_upToDepth (depth : Nat) (cs : List Char) :
    SameUpToDepth .tooDeep (program depth cs) (program (depth + 1) cs) := by
  rw [program_eq, program_eq]
  rcases readExpression_upToDepth depth cs with hdeep | hsame
  · rw [hdeep]
    exact .inl rfl
  · rw [hsame]
    exact .inr rfl

/-- Parsing that does not reach the limit answers the same at every greater one. -/
theorem parse_upToDepth (hle : depth ≤ depth') (text : String) :
    SameUpToDepth .tooDeep (parse depth text) (parse depth' text) := by
  induction hle with
  | refl => exact .inr rfl
  | @step above _ ih =>
    rcases ih with hdeep | hsame
    · exact .inl hdeep
    · rcases program_upToDepth above text.toList with hdeep | hmore
      · rw [← hsame]
        exact .inl (parse_eq_tooDeep_iff_program.2 hdeep)
      · refine .inr (Eq.trans ?_ hsame)
        simp only [parse, hmore]

end CallScript.Grammar
