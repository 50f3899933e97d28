import CallScript.Proofs.Shell.Balance

/-!
# Progress of reading

Reading an expression, and reading the calls behind one, are loops: one argument list a round, and in a
list one argument a round. Every round leaves less of the text than there was, so the loops end, and what
is left of the text is always an end of it. The characters that are taken off pay for the tree: one for
each leaf, and two for each call, which are its parentheses.
-/

namespace CallScript

namespace Expr

mutual

def leafCount : Expr → Nat
  | literal _ => 1
  | word _ => 1
  | apply operator args => operator.leafCount + leafCountAll args
  | foreign _ _ => 0

def leafCountAll : List Expr → Nat
  | [] => 0
  | e :: rest => e.leafCount + leafCountAll rest

end

mutual

def callCount : Expr → Nat
  | apply operator args => operator.callCount + callCountAll args + 1
  | _ => 0

def callCountAll : List Expr → Nat
  | [] => 0
  | e :: rest => e.callCount + callCountAll rest

end

/-- What an expression costs at least to be written: a character for each leaf, and two for each call. -/
def weight (e : Expr) : Nat :=
  e.leafCount + 2 * e.callCount

def weightAll (es : List Expr) : Nat :=
  leafCountAll es + 2 * callCountAll es

theorem weight_apply (operator : Expr) (args : List Expr) :
    (apply operator args).weight = operator.weight + weightAll args + 2 := by
  simp only [weight, weightAll, leafCount, callCount]
  omega

theorem weightAll_nil : weightAll [] = 0 := rfl

theorem weightAll_cons (e : Expr) (es : List Expr) : weightAll (e :: es) = e.weight + weightAll es := by
  simp only [weight, weightAll, leafCountAll, callCountAll]
  omega

end Expr

namespace Grammar

open Text

variable {depth : Nat} {cs next rest : List Char} {e e' : Expr} {es args : List Expr}

/-- A round of reading arguments: the list does not end yet, an argument is read, and behind it the list
ends, or there is a comma, which is taken. -/
inductive ArgumentRound (depth : Nat) (cs : List Char) (e : Expr) (next : List Char) : Prop where
  | comma {left : List Char} (goesOn : (skipBlanks cs).head? ≠ some ')')
      (read : readExpression depth cs = .ok (e, left)) (separates : skipBlanks left = ',' :: next)
  | last {left : List Char} (goesOn : (skipBlanks cs).head? ≠ some ')')
      (read : readExpression depth cs = .ok (e, left)) (closes : next.head? = some ')')
      (stays : skipBlanks left = next)

/-- Rounds of reading arguments up to the end of their list. -/
inductive ArgumentRounds (depth : Nat) : (cs : List Char) → (es : List Expr) → (rest : List Char) → Prop
  where
  | done {cs rest : List Char} (closes : skipBlanks cs = ')' :: rest) : ArgumentRounds depth cs [] rest
  | round {cs next rest : List Char} {e : Expr} {es : List Expr} (first : ArgumentRound depth cs e next)
      (more : ArgumentRounds depth next es rest) : ArgumentRounds depth cs (e :: es) rest

/-- A round of reading calls: an argument list is opened and read, and makes a call of what was read. -/
inductive CallRound (depth : Nat) (e : Expr) (cs : List Char) (e' : Expr) (next : List Char) : Prop where
  | mk {inner : List Char} {args : List Expr} (opens : skipBlanks cs = '(' :: inner)
      (list : readArguments depth inner = .ok (args, next)) (call : e' = .apply e args)

/-- Rounds of reading calls, as long as argument lists are opened. -/
inductive CallRounds (depth : Nat) : (e : Expr) → (cs : List Char) → (e' : Expr) → (rest : List Char) →
    Prop where
  | done {e : Expr} {cs : List Char} (noOpen : (skipBlanks cs).head? ≠ some '(') :
      CallRounds depth e cs e (skipBlanks cs)
  | round {e e' e'' : Expr} {cs next rest : List Char} (first : CallRound depth e cs e' next)
      (more : CallRounds depth e' next e'' rest) : CallRounds depth e cs e'' rest

/-- Something is taken off a text, and what is left is its end. -/
def Shortens (cs rest : List Char) : Prop :=
  rest <:+ cs ∧ rest.length < cs.length

theorem skipBlanks_suffix (cs : List Char) : skipBlanks cs <:+ cs :=
  List.dropWhile_suffix _

theorem Shortens.trans_suffix (h : Shortens cs next) (hrest : rest <:+ next) : Shortens cs rest :=
  ⟨hrest.trans h.1, Nat.lt_of_le_of_lt hrest.length_le h.2⟩

theorem shortens_of_skipBlanks {c : Char} (h : skipBlanks cs = c :: rest) : Shortens cs rest := by
  have hsuffix := skipBlanks_suffix cs
  rw [h] at hsuffix
  exact ⟨(List.suffix_cons c rest).trans hsuffix, length_lt_of_skipBlanks h⟩

/-- What is known of expressions that are read at some depth: something is taken off, and enough for the
expression. -/
def PaysForExpressions (depth : Nat) : Prop :=
  ∀ {cs rest : List Char} {e : Expr}, readExpression depth cs = .ok (e, rest) →
    Shortens cs rest ∧ e.weight + rest.length ≤ cs.length

theorem ArgumentRound.pays (hread : PaysForExpressions depth) (h : ArgumentRound depth cs e next) :
    Shortens cs next ∧ e.weight + next.length ≤ cs.length := by
  cases h with
  | comma goesOn read separates =>
    obtain ⟨hleft, hweight⟩ := hread read
    have hnext := shortens_of_skipBlanks separates
    exact ⟨hleft.trans_suffix hnext.1, by have := hnext.2; omega⟩
  | @last left goesOn read closes stays =>
    obtain ⟨hleft, hweight⟩ := hread read
    have hnext := skipBlanks_suffix left
    rw [stays] at hnext
    exact ⟨hleft.trans_suffix hnext, by have := hnext.length_le; omega⟩

theorem ArgumentRounds.pays (hread : PaysForExpressions depth) (h : ArgumentRounds depth cs es rest) :
    Shortens cs rest ∧ Expr.weightAll es + rest.length < cs.length := by
  induction h with
  | done closes =>
    have hrest := shortens_of_skipBlanks closes
    exact ⟨hrest, by rw [Expr.weightAll_nil, Nat.zero_add]; exact hrest.2⟩
  | round first more ih =>
    obtain ⟨hnext, hweight⟩ := first.pays hread
    rw [Expr.weightAll_cons]
    exact ⟨hnext.trans_suffix ih.1.1, by omega⟩

theorem argumentRounds_of_readArguments (h : readArguments depth cs = .ok (es, rest)) :
    ArgumentRounds depth cs es rest := by
  induction hn : cs.length using Nat.strongRecOn generalizing cs es with
  | ind n ih =>
    by_cases hhead : (skipBlanks cs).head? = some ')'
    · obtain ⟨behind, hclose⟩ := List.head?_eq_some_iff.1 hhead
      rw [readArguments_close hclose] at h
      cases h
      exact .done hclose
    · rw [readArguments_first hhead] at h
      cases hfirst : readExpression depth cs with
      | error failure => simp [hfirst] at h
      | ok read =>
        obtain ⟨e, left⟩ := read
        have hlength := length_readExpression_lt hfirst
        simp only [hfirst] at h
        rcases readMore_cases h with ⟨rfl, hclose⟩ | ⟨inner, es', rfl, hcomma, hmore⟩
        · exact .round (.last hhead hfirst rfl hclose) (.done (skipBlanks_cons (by decide) rest))
        · have hinner := length_lt_of_skipBlanks hcomma
          exact .round (.comma hhead hfirst hcomma) (ih inner.length (by omega) hmore rfl)

theorem ArgumentRound.readArguments (h : ArgumentRound depth cs e next)
    (hmore : readArguments depth next = .ok (es, rest)) :
    readArguments depth cs = .ok (e :: es, rest) := by
  cases h with
  | comma goesOn read separates =>
    rw [readArguments_first goesOn, read]
    simp only [readMore_comma separates, hmore]
  | last goesOn read closes stays =>
    obtain ⟨behind, rfl⟩ := List.head?_eq_some_iff.1 closes
    rw [readArguments_close (skipBlanks_cons (by decide) behind)] at hmore
    cases hmore
    rw [readArguments_first goesOn, read]
    exact readMore_close stays

theorem readArguments_eq_ok_iff :
    readArguments depth cs = .ok (es, rest) ↔ ArgumentRounds depth cs es rest := by
  refine ⟨argumentRounds_of_readArguments, fun h => ?_⟩
  induction h with
  | done closes => exact readArguments_close closes
  | round first more ih => exact first.readArguments ih

theorem CallRound.readCalls (h : CallRound depth e cs e' next) :
    readCalls depth e cs = readCalls depth e' next := by
  obtain ⟨opens, list, rfl⟩ := h
  rw [readCalls_open opens, list]

theorem callRounds_of_readCalls (h : readCalls depth e cs = .ok (e', rest)) :
    CallRounds depth e cs e' rest := by
  induction hn : cs.length using Nat.strongRecOn generalizing cs e with
  | ind n ih =>
    by_cases hhead : (skipBlanks cs).head? = some '('
    · obtain ⟨inner, hopen⟩ := List.head?_eq_some_iff.1 hhead
      have hinner := length_lt_of_skipBlanks hopen
      cases hlist : readArguments depth inner with
      | error failure =>
        rw [readCalls_open hopen, hlist] at h
        cases h
      | ok read =>
        have hlength := length_readArguments_lt hlist
        have hround : CallRound depth e cs (.apply e read.1) read.2 := ⟨hopen, hlist, rfl⟩
        rw [hround.readCalls] at h
        exact .round hround (ih read.2.length (by omega) h rfl)
    · rw [readCalls_done hhead] at h
      cases h
      exact .done hhead

theorem readCalls_eq_ok_iff :
    readCalls depth e cs = .ok (e', rest) ↔ CallRounds depth e cs e' rest := by
  refine ⟨callRounds_of_readCalls, fun h => ?_⟩
  induction h with
  | done noOpen => exact readCalls_done noOpen
  | round first more ih => rw [first.readCalls, ih]

theorem CallRound.pays (hread : PaysForExpressions depth) (h : CallRound depth e cs e' next) :
    Shortens cs next ∧ e'.weight + next.length ≤ e.weight + cs.length := by
  obtain ⟨opens, list, rfl⟩ := h
  have hinner := shortens_of_skipBlanks opens
  obtain ⟨hnext, hweight⟩ := (readArguments_eq_ok_iff.1 list).pays hread
  refine ⟨hinner.trans_suffix hnext.1, ?_⟩
  have hopened := hinner.2
  rw [Expr.weight_apply]
  omega

theorem CallRounds.pays (hread : PaysForExpressions depth) (h : CallRounds depth e cs e' rest) :
    rest <:+ cs ∧ e'.weight + rest.length ≤ e.weight + cs.length := by
  induction h with
  | @done e cs noOpen =>
    have hrest := skipBlanks_suffix cs
    exact ⟨hrest, by have := hrest.length_le; omega⟩
  | round first more ih =>
    obtain ⟨hnext, hweight⟩ := first.pays hread
    exact ⟨ih.1.trans hnext.1, by omega⟩

theorem Primary.weight_eq (h : Primary cs e rest) : e.weight = 1 := by
  cases h <;> rfl

theorem Primary.suffix (h : Primary cs e rest) : rest <:+ cs :=
  h.passes.suffix

theorem paysForExpressions : ∀ depth, PaysForExpressions depth
  | 0, _, _, _, h => by cases h
  | depth + 1, cs, rest, e, h => by
    by_cases hfirst : ∃ first left, Primary (skipBlanks cs) first left
    · obtain ⟨first, left, hfirst⟩ := hfirst
      rw [readExpression_primary hfirst] at h
      obtain ⟨hrest, hweight⟩ := (readCalls_eq_ok_iff.1 h).pays (paysForExpressions depth)
      have hskip := skipBlanks_suffix cs
      have hleft := hfirst.length_lt
      have hlength := hskip.length_le
      have hshorter := hrest.length_le
      rw [hfirst.weight_eq] at hweight
      exact ⟨⟨hrest.trans (hfirst.suffix.trans hskip), by omega⟩, by omega⟩
    · simp only [not_exists] at hfirst
      rw [readExpression_refused hfirst] at h
      cases h

/-- How reading from a place of a text ends: an expression was read up to a place that is at least so much
further on, or the text is refused at a place that is no earlier. The expression weighs no more than what
was taken off, and what it was made of. -/
inductive EndsFrom (text : List Char) (start least carried : Nat) :
    Except Failure (Expr × List Char) → Prop where
  | read {e : Expr} {stop : Nat} (advanced : start + least ≤ stop) (inside : stop ≤ text.length)
      (paid : e.leafCount + 2 * e.callCount ≤ stop - start + carried) :
      EndsFrom text start least carried (.ok (e, text.drop stop))
  | refused (refusal : Refusal) {stop : Nat} (onward : start ≤ stop) (inside : stop ≤ text.length) :
      EndsFrom text start least carried (.error (.refused refusal (text.drop stop)))

theorem exists_place {text : List Char} {start : Nat} (hstart : start ≤ text.length)
    (h : rest <:+ text.drop start) :
    ∃ stop, rest = text.drop stop ∧ start ≤ stop ∧ stop ≤ text.length ∧
      stop - start + rest.length = (text.drop start).length := by
  have hle := h.length_le
  have hdrop := List.suffix_iff_eq_drop.1 h
  rw [List.length_drop] at hle hdrop
  refine ⟨text.length - rest.length, ?_, by omega, by omega, by rw [List.length_drop]; omega⟩
  conv => lhs; rw [hdrop, List.drop_drop]
  congr 1
  omega

theorem Shortens.exists_place {text : List Char} {start : Nat} (hstart : start ≤ text.length)
    (h : Shortens (text.drop start) rest) :
    ∃ stop, rest = text.drop stop ∧ start < stop ∧ stop ≤ text.length := by
  obtain ⟨stop, hrest, honward, hinside, hlength⟩ := Grammar.exists_place hstart h.1
  have hshorter := h.2
  exact ⟨stop, hrest, by omega, hinside⟩

theorem suffix_of_refused (h : rest = skipBlanks cs ∨ RefusedAt 1 cs rest) : rest <:+ cs := by
  rcases h with rfl | ⟨-, opened, -, hpasses⟩
  · exact skipBlanks_suffix cs
  · exact hpasses.suffix

section

variable {text : List Char} {start : Nat} (hstart : start ≤ text.length)
include hstart

theorem EndsFrom.of_refused {least carried : Nat} (refusal : Refusal)
    (h : rest <:+ text.drop start) :
    EndsFrom text start least carried (.error (.refused refusal rest)) := by
  obtain ⟨stop, rfl, honward, hinside, -⟩ := Grammar.exists_place hstart h
  exact .refused refusal honward hinside

theorem readExpression_endsFrom (depth : Nat) :
    EndsFrom text start 1 0 (readExpression depth (text.drop start)) ∨
      readExpression depth (text.drop start) = .error .tooDeep ∧ depth ≤ text.length - start := by
  cases hread : readExpression depth (text.drop start) with
  | ok read =>
    obtain ⟨⟨hrest, hshorter⟩, hweight⟩ := paysForExpressions depth hread
    obtain ⟨stop, hplace, honward, hinside, hlength⟩ := Grammar.exists_place hstart hrest
    rw [Expr.weight] at hweight
    have hread' : read = (read.1, text.drop stop) := by rw [← hplace]
    rw [hread']
    exact .inl (.read (by omega) hinside (by omega))
  | error failure =>
    cases failure with
    | refused refusal rest =>
      exact .inl (.of_refused hstart refusal (suffix_of_refused (refusesExpressions depth hread)))
    | tooDeep =>
      have hdeep := reachesLimit depth hread
      rw [List.length_drop] at hdeep
      exact .inr ⟨rfl, hdeep⟩

theorem readCalls_endsFrom (depth : Nat) (e : Expr) :
    EndsFrom text start 0 (e.leafCount + 2 * e.callCount) (readCalls depth e (text.drop start)) ∨
      readCalls depth e (text.drop start) = .error .tooDeep ∧ depth < text.length - start := by
  cases hread : readCalls depth e (text.drop start) with
  | ok read =>
    obtain ⟨hrest, hweight⟩ := (readCalls_eq_ok_iff.1 hread).pays (paysForExpressions depth)
    obtain ⟨stop, hplace, honward, hinside, hlength⟩ := Grammar.exists_place hstart hrest
    rw [Expr.weight, Expr.weight] at hweight
    have hread' : read = (read.1, text.drop stop) := by rw [← hplace]
    rw [hread']
    exact .inl (.read honward hinside (by omega))
  | error failure =>
    cases failure with
    | refused refusal rest =>
      have hrefused := refused_of_readCalls (refusesExpressions depth) hread
      exact .inl (.of_refused hstart refusal (suffix_of_refused (.inr hrefused)))
    | tooDeep =>
      have hdeep := lt_length_of_readCalls (reachesLimit depth) hread
      rw [List.length_drop] at hdeep
      exact .inr ⟨rfl, hdeep⟩

/-- Reading always makes progress. From any place of a text, reading an expression ends further on, and
reading calls ends no earlier, both within the text, unless there is no room for what is nested in it,
which has to be less than the characters left. The loops that read calls and arguments go in rounds, and
every round takes something off. What was taken off pays for the tree that was read. -/
theorem reading_makes_progress :
    (∀ depth, EndsFrom text start 1 0 (readExpression depth (text.drop start)) ∨
      readExpression depth (text.drop start) = .error .tooDeep ∧ depth ≤ text.length - start) ∧
    (∀ depth e,
      EndsFrom text start 0 (e.leafCount + 2 * e.callCount) (readCalls depth e (text.drop start)) ∨
        readCalls depth e (text.drop start) = .error .tooDeep ∧ depth < text.length - start) ∧
    (∀ depth e e' next, CallRound depth e (text.drop start) e' next →
      ∃ stop, next = text.drop stop ∧ start < stop ∧ stop ≤ text.length) ∧
    (∀ depth e next, ArgumentRound depth (text.drop start) e next →
      ∃ stop, next = text.drop stop ∧ start < stop ∧ stop ≤ text.length) ∧
    (∀ depth e e' rest, readCalls depth e (text.drop start) = .ok (e', rest) ↔
      CallRounds depth e (text.drop start) e' rest) ∧
    (∀ depth es rest, readArguments depth (text.drop start) = .ok (es, rest) ↔
      ArgumentRounds depth (text.drop start) es rest) := by
  refine ⟨readExpression_endsFrom hstart, readCalls_endsFrom hstart, fun depth e e' next hround => ?_,
    fun depth e next hround => ?_, fun _ _ _ _ => readCalls_eq_ok_iff,
    fun _ _ _ => readArguments_eq_ok_iff⟩
  · exact (hround.pays (paysForExpressions depth)).1.exists_place hstart
  · exact (hround.pays (paysForExpressions depth)).1.exists_place hstart

end

/-- A call without arguments, read from within the arguments of another one. Its operator is the empty
string. -/
theorem reading_makes_progress_in_arguments :
    let text := "g(\"\"( ))".toList
    2 ≤ text.length ∧ EndsFrom text 2 1 0 (readExpression 400 (text.drop 2)) ∧
      readExpression 400 (text.drop 2) = .ok (.apply (stringLiteral []) [], text.drop 7) := by
  intro text
  have hstart : 2 ≤ text.length := by decide
  have hends := (reading_makes_progress hstart).1 400
  have operator : Primary (skipBlanks (text.drop 2)) (stringLiteral []) (text.drop 4) :=
    @Primary.string [] _ (by decide)
  have hopen : skipBlanks (text.drop 4) = '(' :: text.drop 5 := rfl
  have hlist : readArguments 399 (text.drop 5) = .ok ([], text.drop 7) := readArguments_close rfl
  have hread : readExpression 400 (text.drop 2) = .ok (.apply (stringLiteral []) [], text.drop 7) := by
    rw [readExpression_primary operator, readCalls_open hopen, hlist]
    exact readCalls_done (by decide)
  exact ⟨hstart, hends.resolve_right fun hdeep => absurd hdeep.2 (by decide), hread⟩

end Grammar

end CallScript
