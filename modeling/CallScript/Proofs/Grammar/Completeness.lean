import CallScript.Proofs.Grammar.Reading

/-!
# Every derivation is read

Where the grammar derives an expression at the front of a text, reading goes on as if that expression
were the operator of calls still to come, provided that there is room for the argument lists nested in
it. The induction is on the derivation. Since only a comma, a closing parenthesis or the end of the
text can follow an expression in a list or a program, no further call is read there.
-/

namespace CallScript

namespace Expr

mutual

/-- How deep argument lists are nested in an expression. A list without arguments has no depth. -/
def callDepth : Expr → Nat
  | apply operator args => max operator.callDepth (argsDepth args)
  | _ => 0

/-- How deep argument lists are nested in the arguments of a call, its own list included. -/
def argsDepth : List Expr → Nat
  | [] => 0
  | e :: rest => max (e.callDepth + 1) (argsDepth rest)

end

end Expr

namespace Grammar

open Text CallScript.Expr

variable {depth : Nat} {cs rest : List Char} {e : Expr} {es : List Expr}

theorem eq_of_skipBlanks_eq {c : Char} (h : skipBlanks cs = c :: rest) :
    ∃ blanks, isBlankText blanks = true ∧ cs = blanks ++ c :: rest := by
  obtain ⟨blanks, hblanks, hcs⟩ := exists_blanks cs
  exact ⟨blanks, hblanks, by rw [← h]; exact hcs⟩

theorem skipBlanks_blanks_cons {blanks : List Char} {c : Char} (hblanks : isBlankText blanks = true)
    (hc : isBlank c = false) : skipBlanks (blanks ++ c :: rest) = c :: rest := by
  rw [skipBlanks_append hblanks, skipBlanks_cons hc]

theorem Primary.head (h : Primary cs e rest) :
    ∃ c more, cs = c :: more ∧ isBlank c = false ∧ c ≠ ')' := by
  cases h with
  | string closed => exact ⟨'"', _, rfl, by decide, by decide⟩
  | number numeral =>
    obtain ⟨c, more, hdigits, hc⟩ := exists_cons_of_run numeral.nonempty numeral.digit
    refine ⟨c, more ++ rest, by rw [numeral.eq, hdigits, List.cons_append],
      isBlank_of_joinsDigits (joinsDigits_of_isDigit hc), ?_⟩
    rintro rfl
    exact absurd hc (by decide)
  | @word name _ _ nonempty char _ =>
    obtain ⟨c, more, rfl, hc⟩ := exists_cons_of_run nonempty char
    refine ⟨c, more ++ rest, rfl, isBlank_of_isWordChar hc, ?_⟩
    rintro rfl
    exact absurd hc (by decide)

theorem Primary.callDepth_eq (h : Primary cs e rest) : e.callDepth = 0 := by
  cases h <;> rfl

theorem Primary.skipBlanks_eq (h : Primary cs e rest) : skipBlanks cs = cs := by
  obtain ⟨c, more, rfl, hc, -⟩ := h.head
  exact skipBlanks_cons hc _

theorem Primary.length_lt (h : Primary cs e rest) : rest.length < cs.length := by
  cases h with
  | string closed =>
    simp only [List.length_cons, List.length_append]
    omega
  | number numeral =>
    have := List.length_pos_iff.2 numeral.nonempty
    rw [numeral.eq, List.length_append]
    omega
  | word noNumber nonempty char longest =>
    have := List.length_pos_iff.2 nonempty
    rw [List.length_append]
    omega

theorem Expression.head {cs rest : List Char} {e : Expr} : Expression cs e rest →
    ∃ c more, skipBlanks cs = c :: more ∧ c ≠ ')'
  | .primary blank first => by
    obtain ⟨c, more, rfl, hc, hclose⟩ := first.head
    exact ⟨c, more, skipBlanks_blanks_cons blank hc, hclose⟩
  | .call before _ _ => before.head

theorem Expression.head?_ne_close (h : Expression cs e rest) : (skipBlanks cs).head? ≠ some ')' := by
  obtain ⟨c, more, hcs, hclose⟩ := h.head
  rw [hcs]
  simpa using hclose

theorem MoreArguments.head?_ne_open (h : MoreArguments cs es rest) :
    (skipBlanks cs).head? ≠ some '(' := by
  cases h with
  | close blank => simp [skipBlanks_blanks_cons blank (show isBlank ')' = false by decide)]
  | closeAfterComma blank blank' =>
    simp [skipBlanks_blanks_cons blank (show isBlank ',' = false by decide)]
  | next blank first more =>
    simp [skipBlanks_blanks_cons blank (show isBlank ',' = false by decide)]

/-- How an answer depends on the depth that is left: all of it, or nothing but the refusal to go
deeper. -/
def ifRoom {α : Type} (needed depth : Nat) (answer : Except Failure α) : Except Failure α :=
  if needed ≤ depth then answer else .error .tooDeep

theorem ifRoom_zero {α : Type} (depth : Nat) (answer : Except Failure α) :
    ifRoom 0 depth answer = answer :=
  if_pos (Nat.zero_le depth)

/-- What needs room for a part and then for another one needs room for the greater of the two. -/
theorem ifRoom_ifRoom {α : Type} (needed needed' depth : Nat) (answer : Except Failure α) :
    ifRoom needed depth (ifRoom needed' depth answer) = ifRoom (max needed needed') depth answer := by
  by_cases h : needed ≤ depth
  · by_cases h' : needed' ≤ depth
    · have hmax : max needed needed' ≤ depth := Nat.max_le.2 ⟨h, h'⟩
      simp only [ifRoom, if_pos h, if_pos h', if_pos hmax]
    · have hmax : ¬ max needed needed' ≤ depth := fun hle => h' (Nat.max_le.1 hle).2
      simp only [ifRoom, if_pos h, if_neg h', if_neg hmax]
  · have hmax : ¬ max needed needed' ≤ depth := fun hle => h (Nat.max_le.1 hle).1
    simp only [ifRoom, if_neg h, if_neg hmax]

theorem readArguments_of_first {behind : List Char}
    (hhead : (skipBlanks cs).head? ≠ some ')') (hbehind : (skipBlanks behind).head? ≠ some '(')
    (hfirst : ∀ depth, readExpression (depth + 1) cs =
      ifRoom e.callDepth depth (readCalls depth e behind))
    (hmore : ∀ depth, readMore depth e behind = ifRoom (argsDepth es) depth (.ok (e :: es, rest)))
    (depth : Nat) :
    readArguments depth cs = ifRoom (argsDepth (e :: es)) depth (.ok (e :: es, rest)) := by
  rw [readArguments_first hhead]
  cases depth with
  | zero => simp [ifRoom, argsDepth]
  | succ depth =>
    have hskip : readMore (depth + 1) e (skipBlanks behind) = readMore (depth + 1) e behind := by
      simp only [readMore, skipBlanks_skipBlanks]
    rw [hfirst, readCalls_done hbehind, argsDepth, ← ifRoom_ifRoom]
    by_cases he : e.callDepth ≤ depth
    · simp only [ifRoom, if_pos he, if_pos (Nat.succ_le_succ he), hskip, hmore]
    · simp only [ifRoom, if_neg he, if_neg (fun h => he (Nat.le_of_succ_le_succ h))]

mutual

/-- Where an expression is derived, reading goes on with the calls that it is the operator of. -/
theorem Expression.read {cs rest : List Char} {e : Expr} : Expression cs e rest → ∀ depth,
    readExpression (depth + 1) cs = ifRoom e.callDepth depth (readCalls depth e rest)
  | @Expression.primary blanks cs _ _ blank first, depth => by
    have hfirst : Primary (skipBlanks (blanks ++ cs)) e rest := by
      rwa [skipBlanks_append blank, first.skipBlanks_eq]
    rw [readExpression_primary hfirst, first.callDepth_eq, ifRoom_zero]
  | @Expression.call _ _ inner _ _ args before blank list, depth => by
    have hopen : skipBlanks (_ ++ '(' :: inner) = '(' :: inner :=
      skipBlanks_blanks_cons blank (by decide)
    rw [before.read depth, readCalls_open hopen, list.read depth, callDepth, ← ifRoom_ifRoom]
    by_cases hargs : argsDepth args ≤ depth
    · simp only [ifRoom, if_pos hargs]
    · simp only [ifRoom, if_neg hargs]

theorem Arguments.read {cs rest : List Char} {es : List Expr} : Arguments cs es rest → ∀ depth,
    readArguments depth cs = ifRoom (argsDepth es) depth (.ok (es, rest))
  | .empty blank, depth => by
    have hclose : skipBlanks (_ ++ ')' :: rest) = ')' :: rest :=
      skipBlanks_blanks_cons blank (by decide)
    rw [readArguments_close hclose, argsDepth, ifRoom_zero]
  | .nonempty first more, depth =>
    readArguments_of_first first.head?_ne_close more.head?_ne_open first.read
      (fun depth => more.read depth _) depth

theorem MoreArguments.read {cs rest : List Char} {es : List Expr} :
    MoreArguments cs es rest → ∀ depth e,
    readMore depth e cs = ifRoom (argsDepth es) depth (.ok (e :: es, rest))
  | .close blank, depth, e => by
    have hclose : skipBlanks (_ ++ ')' :: rest) = ')' :: rest :=
      skipBlanks_blanks_cons blank (by decide)
    rw [readMore_close hclose, argsDepth, ifRoom_zero]
  | .closeAfterComma blank blank', depth, e => by
    have hclose : skipBlanks (_ ++ ')' :: rest) = ')' :: rest :=
      skipBlanks_blanks_cons blank' (by decide)
    rw [readMore_comma (skipBlanks_blanks_cons blank (by decide)), readArguments_close hclose,
      argsDepth, ifRoom_zero]
  | @MoreArguments.next _ _ _ _ first es blank expr more, depth, e => by
    have hlist := readArguments_of_first expr.head?_ne_close more.head?_ne_open expr.read
      (fun depth => more.read depth _) depth
    rw [readMore_comma (skipBlanks_blanks_cons blank (by decide)), hlist]
    by_cases hroom : argsDepth (first :: es) ≤ depth
    · simp only [ifRoom, if_pos hroom]
    · simp only [ifRoom, if_neg hroom]

end

theorem Program.read (h : Program cs e) (depth : Nat) :
    program depth cs = if e.callDepth < depth then .ok e else .error .tooDeep := by
  obtain ⟨rest, hexpr, hblank⟩ := h
  have hrest : skipBlanks rest = [] := skipBlanks_eq_nil_iff.2 hblank
  rw [program_eq]
  cases depth with
  | zero => rw [readExpression_zero, if_neg (Nat.not_lt_zero _)]
  | succ depth =>
    rw [hexpr.read depth]
    by_cases he : e.callDepth ≤ depth
    · simp only [ifRoom, if_pos he, if_pos (Nat.lt_succ_of_le he), hrest,
        readCalls_done (show (skipBlanks rest).head? ≠ some '(' by simp [hrest])]
      rfl
    · simp only [ifRoom, if_neg he, if_neg (fun h => he (Nat.le_of_lt_succ h))]

end Grammar

end CallScript
