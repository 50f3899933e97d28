import CallScript.Proofs.Grammar.Completeness

/-!
# Whatever is read is derived

An expression that was read has a derivation that ends, up to blanks, where reading ended. Lists and
chains of calls are followed by induction on the length of the text, because that is why reading them
ends; the expressions in a list by induction on the depth that is left.
-/

namespace CallScript.Grammar

open Text CallScript.Expr

variable {depth : Nat} {cs rest : List Char} {e : Expr} {es : List Expr}

/-- What an answer of the reader of expressions at some depth tells about the text. -/
def DerivesWhatIsRead (depth : Nat) : Prop :=
  ∀ {cs rest : List Char} {e : Expr}, readExpression depth cs = .ok (e, rest) →
    e.callDepth < depth ∧ ∃ behind, Expression cs e behind ∧ skipBlanks behind = rest

theorem length_readExpression_lt (h : readExpression depth cs = .ok (e, rest)) :
    rest.length < cs.length := by
  unfold readExpression at h
  cases hread : expression depth cs with
  | error failure => simp [hread, Except.map] at h
  | ok read =>
    simp only [hread, Except.map, Read.result, Except.ok.injEq, Prod.mk.injEq] at h
    rw [← h.2]
    exact read.shorter

theorem length_readArguments_lt (h : readArguments depth cs = .ok (es, rest)) :
    rest.length < cs.length := by
  unfold readArguments at h
  cases hread : arguments (expression depth) cs with
  | error failure => simp [hread, Except.map] at h
  | ok list =>
    simp only [hread, Except.map, Except.ok.injEq, Prod.mk.injEq] at h
    rw [← h.2]
    exact list.shorter

/-- A comma may stand before a list of arguments, also before an empty one. -/
theorem Arguments.afterComma {blanks : List Char} (hblanks : isBlankText blanks = true)
    (h : Arguments cs es rest) : MoreArguments (blanks ++ ',' :: cs) es rest := by
  cases h with
  | empty blank => exact .closeAfterComma hblanks blank
  | nonempty first more => exact .next hblanks first more

/-- Behind an argument there is the end of its list, or a comma and the arguments left. -/
theorem readMore_cases (h : readMore depth e cs = .ok (es, rest)) :
    (es = [e] ∧ skipBlanks cs = ')' :: rest) ∨
      ∃ inner es', es = e :: es' ∧ skipBlanks cs = ',' :: inner ∧
        readArguments depth inner = .ok (es', rest) := by
  unfold readMore at h
  split at h
  · next behind hclose =>
    cases h
    exact .inl ⟨rfl, hclose⟩
  · next inner hcomma =>
    cases hmore : readArguments depth inner with
    | error failure => simp [hmore] at h
    | ok list =>
      simp only [hmore, Except.ok.injEq, Prod.mk.injEq] at h
      obtain ⟨rfl, rfl⟩ := h
      exact .inr ⟨inner, list.1, rfl, hcomma, hmore⟩
  · cases h

theorem readArguments_sound (hread : DerivesWhatIsRead depth) {cs rest : List Char}
    {es : List Expr} (h : readArguments depth cs = .ok (es, rest)) :
    argsDepth es ≤ depth ∧ Arguments cs es rest := by
  induction hn : cs.length using Nat.strongRecOn generalizing cs es with
  | ind n ih =>
    by_cases hhead : (skipBlanks cs).head? = some ')'
    · obtain ⟨behind, hclose⟩ := List.head?_eq_some_iff.1 hhead
      rw [readArguments_close hclose] at h
      cases h
      obtain ⟨blanks, hblanks, rfl⟩ := eq_of_skipBlanks_eq hclose
      exact ⟨Nat.zero_le _, .empty hblanks⟩
    · rw [readArguments_first hhead] at h
      cases hfirst : readExpression depth cs with
      | error failure => simp [hfirst] at h
      | ok read =>
        obtain ⟨e, left⟩ := read
        have hlength := length_readExpression_lt hfirst
        obtain ⟨hdepth, behind, hexpr, rfl⟩ := hread hfirst
        simp only [hfirst] at h
        rcases readMore_cases h with ⟨rfl, hclose⟩ | ⟨inner, es', rfl, hcomma, hmore⟩
        · rw [skipBlanks_skipBlanks] at hclose
          obtain ⟨blanks, hblanks, rfl⟩ := eq_of_skipBlanks_eq hclose
          refine ⟨by simp only [argsDepth]; omega, .nonempty hexpr (.close hblanks)⟩
        · rw [skipBlanks_skipBlanks] at hcomma
          obtain ⟨blanks, hblanks, rfl⟩ := eq_of_skipBlanks_eq hcomma
          have hinner : inner.length < cs.length := by
            rw [hcomma, List.length_cons] at hlength
            omega
          obtain ⟨hdepth', hlist⟩ := ih _ (hn ▸ hinner) hmore rfl
          refine ⟨by simp only [argsDepth]; omega, .nonempty hexpr (hlist.afterComma hblanks)⟩

/-- While calls are read, what was read so far stays derived. -/
theorem readCalls_sound (hread : DerivesWhatIsRead depth) {start cs rest : List Char} {e e' : Expr}
    (hstart : Expression start e cs) (he : e.callDepth ≤ depth)
    (h : readCalls depth e cs = .ok (e', rest)) :
    e'.callDepth ≤ depth ∧ ∃ behind, Expression start e' behind ∧ skipBlanks behind = rest := by
  induction hn : cs.length using Nat.strongRecOn generalizing cs e with
  | ind n ih =>
    by_cases hhead : (skipBlanks cs).head? = some '('
    · obtain ⟨inner, hopen⟩ := List.head?_eq_some_iff.1 hhead
      rw [readCalls_open hopen] at h
      cases hlist : readArguments depth inner with
      | error failure => simp [hlist] at h
      | ok read =>
        obtain ⟨args, left⟩ := read
        have hlength := length_readArguments_lt hlist
        have hinner := length_lt_of_skipBlanks hopen
        obtain ⟨hdepth, hargs⟩ := readArguments_sound hread hlist
        obtain ⟨blanks, hblanks, rfl⟩ := eq_of_skipBlanks_eq hopen
        simp only [hlist] at h
        refine ih _ (by omega) (.call hstart hblanks hargs) ?_ h rfl
        simp only [callDepth]
        omega
    · rw [readCalls_done hhead] at h
      cases h
      exact ⟨he, cs, hstart, rfl⟩

theorem derivesWhatIsRead : ∀ depth, DerivesWhatIsRead depth
  | 0, _, _, _, h => by cases h
  | depth + 1, cs, rest, e, h => by
    by_cases hfirst : ∃ first left, Primary (skipBlanks cs) first left
    · obtain ⟨first, left, hfirst⟩ := hfirst
      rw [readExpression_primary hfirst] at h
      obtain ⟨blanks, hblanks, hcs⟩ := exists_blanks cs
      have hstart : Expression cs first left := hcs ▸ .primary hblanks hfirst
      have hzero : first.callDepth ≤ depth := by
        rw [hfirst.callDepth_eq]
        exact Nat.zero_le _
      obtain ⟨hdepth, hderived⟩ := readCalls_sound (derivesWhatIsRead depth) hstart hzero h
      exact ⟨Nat.lt_succ_of_le hdepth, hderived⟩
    · simp only [not_exists] at hfirst
      rw [readExpression_refused hfirst] at h
      cases h

theorem program_sound (h : program depth cs = .ok e) : e.callDepth < depth ∧ Program cs e := by
  rw [program_eq] at h
  cases hread : readExpression depth cs with
  | error failure => simp [hread] at h
  | ok read =>
    obtain ⟨e', rest⟩ := read
    obtain ⟨hdepth, behind, hexpr, rfl⟩ := derivesWhatIsRead depth hread
    simp only [hread, skipBlanks_skipBlanks] at h
    split at h
    · next hrest =>
      cases h
      exact ⟨hdepth, behind, hexpr, skipBlanks_eq_nil_iff.1 hrest⟩
    · cases h

end CallScript.Grammar
