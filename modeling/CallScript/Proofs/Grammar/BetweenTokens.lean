import CallScript.Proofs.Grammar.Viable
import CallScript.Proofs.Shell.Balance

/-!
# Blanks between tokens

Reading takes tokens off a text: strings, numbers, words, parentheses and commas. Which ones it takes is
said here in the manner of the rules of reading, for texts that are accepted, texts that are refused and
texts for which there is no room. They are taken one after another, up to where reading ends. Blanks that
are put in behind a token that is taken change nothing of the answer: the token ended there before and
ends before blanks too, and what is taken next begins where blanks were skipped. So a text is refused for
the same reason and with the same rest, which stands that many characters further on.
-/

namespace CallScript.Grammar

open Text CallScript.Expr

variable {depth : Nat} {cs rest inner blanks : List Char} {e : Expr}

mutual

/-- While an expression is read off a text, a token is taken off that leaves this rest behind it. -/
inductive ExpressionTakes : (depth : Nat) → (cs rest : List Char) → Prop where
  | first {depth : Nat} {cs rest : List Char} {e : Expr} (primary : Primary (skipBlanks cs) e rest) :
      ExpressionTakes (depth + 1) cs rest
  | calls {depth : Nat} {cs behind rest : List Char} {e : Expr}
      (primary : Primary (skipBlanks cs) e behind) (takes : CallsTake depth behind rest) :
      ExpressionTakes (depth + 1) cs rest

/-- While the argument lists behind an operator are read, a token is taken off. -/
inductive CallsTake : (depth : Nat) → (cs rest : List Char) → Prop where
  | opening {depth : Nat} {cs inner : List Char} (opens : skipBlanks cs = '(' :: inner) :
      CallsTake depth cs inner
  | list {depth : Nat} {cs inner rest : List Char} (opens : skipBlanks cs = '(' :: inner)
      (takes : ArgumentsTake depth inner rest) : CallsTake depth cs rest
  | next {depth : Nat} {cs inner behind rest : List Char} {args : List Expr}
      (opens : skipBlanks cs = '(' :: inner) (list : readArguments depth inner = .ok (args, behind))
      (takes : CallsTake depth behind rest) : CallsTake depth cs rest

/-- While arguments are read up to the end of their list, a token is taken off. -/
inductive ArgumentsTake : (depth : Nat) → (cs rest : List Char) → Prop where
  | closing {depth : Nat} {cs rest : List Char} (closes : skipBlanks cs = ')' :: rest) :
      ArgumentsTake depth cs rest
  | first {depth : Nat} {cs rest : List Char} (goesOn : (skipBlanks cs).head? ≠ some ')')
      (takes : ExpressionTakes depth cs rest) : ArgumentsTake depth cs rest
  | more {depth : Nat} {cs behind rest : List Char} {e : Expr}
      (goesOn : (skipBlanks cs).head? ≠ some ')')
      (first : readExpression depth cs = .ok (e, behind)) (takes : MoreTake depth behind rest) :
      ArgumentsTake depth cs rest

/-- While the end of a list, or a comma and more arguments, are read behind an argument, a token is taken
off. -/
inductive MoreTake : (depth : Nat) → (cs rest : List Char) → Prop where
  | closing {depth : Nat} {cs rest : List Char} (closes : skipBlanks cs = ')' :: rest) :
      MoreTake depth cs rest
  | comma {depth : Nat} {cs rest : List Char} (separates : skipBlanks cs = ',' :: rest) :
      MoreTake depth cs rest
  | next {depth : Nat} {cs inner rest : List Char} (separates : skipBlanks cs = ',' :: inner)
      (takes : ArgumentsTake depth inner rest) : MoreTake depth cs rest

end

/-- A place in a text where blanks may be put in: its beginning, and behind each token that is taken while
the text is read as a program. -/
def IsBorder (depth : Nat) (cs : List Char) (place : Nat) : Prop :=
  place = 0 ∨ ExpressionTakes depth cs (cs.drop place)

theorem readCalls_skipBlanks : readCalls depth e (skipBlanks cs) = readCalls depth e cs := by
  by_cases hhead : (skipBlanks cs).head? = some '('
  · obtain ⟨inner, hopen⟩ := List.head?_eq_some_iff.1 hhead
    rw [readCalls_open hopen, readCalls_open (by rwa [skipBlanks_skipBlanks])]
  · rw [readCalls_done hhead, readCalls_done (by rwa [skipBlanks_skipBlanks]), skipBlanks_skipBlanks]

theorem readArguments_skipBlanks : readArguments depth (skipBlanks cs) = readArguments depth cs := by
  by_cases hhead : (skipBlanks cs).head? = some ')'
  · obtain ⟨behind, hclose⟩ := List.head?_eq_some_iff.1 hhead
    rw [readArguments_close hclose, readArguments_close (by rwa [skipBlanks_skipBlanks])]
  · rw [readArguments_first hhead, readArguments_first (by rwa [skipBlanks_skipBlanks]),
      readExpression_skipBlanks]

theorem readMore_skipBlanks : readMore depth e (skipBlanks cs) = readMore depth e cs := by
  simp only [readMore, skipBlanks_skipBlanks]

theorem eq_of_skipBlanks {α : Type} {read : List Char → α}
    (h : ∀ cs, read (skipBlanks cs) = read cs) (hblanks : isBlankText blanks = true)
    (cs : List Char) : read (blanks ++ cs) = read cs := by
  rw [← h, skipBlanks_append hblanks, h]

theorem program_blanks (hblanks : isBlankText blanks = true) (cs : List Char) :
    program depth (blanks ++ cs) = program depth cs := by
  rw [program_eq, program_eq, eq_of_skipBlanks (fun _ => readExpression_skipBlanks) hblanks]

/-- What ends somewhere ends there too once blanks are put in further on, or right there. -/
theorem stopsAlike_blanks (hblanks : isBlankText blanks = true) (front rest : List Char) :
    StopsAlike (front ++ rest) (front ++ (blanks ++ rest)) := by
  cases front with
  | cons c front => exact .inl rfl
  | nil =>
    cases blanks with
    | nil => exact .inl rfl
    | cons c more => exact .inr (@no_word_in_blanks (c :: more) hblanks)

/-- What comes first in a text that is not all blank does not depend on what follows the text. -/
theorem head?_skipBlanks_of_not_blank {front : List Char} (h : isBlankText front = false)
    (rest rest' : List Char) :
    (skipBlanks (front ++ rest)).head? = (skipBlanks (front ++ rest')).head? := by
  obtain ⟨blanks, hblanks, hfront⟩ := exists_blanks front
  have hne : skipBlanks front ≠ [] := by
    rw [Ne, skipBlanks_eq_nil_iff, h]
    exact Bool.false_ne_true
  obtain ⟨c, more, hcons⟩ := List.exists_cons_of_ne_nil hne
  have hc := isBlank_of_skipBlanks_eq_cons hcons
  rw [hcons] at hfront
  rw [hfront, List.append_assoc, List.append_assoc, List.cons_append, List.cons_append,
    skipBlanks_blanks_cons hblanks hc, skipBlanks_blanks_cons hblanks hc]
  rfl

/-- The text has a token before that rest of it, and what is read off the text is the same with blanks put
in behind the token. -/
def Ignores {α : Type} (read : List Char → α) (cs rest : List Char) : Prop :=
  ∃ front, isBlankText front = false ∧ cs = front ++ rest ∧
    ∀ blanks, isBlankText blanks = true → read (front ++ (blanks ++ rest)) = read (front ++ rest)

/-- What is read off a text is made of what is read off its end, and that ignores the blanks. -/
theorem Ignores.behind {α β : Type} {read : List Char → α} {read' : List Char → β} (g : β → α)
    {piece behind : List Char} (h : Ignores read' behind rest)
    (hread : ∀ behind', StopsAlike behind behind' →
      (skipBlanks behind').head? = (skipBlanks behind).head? →
      read (piece ++ behind') = g (read' behind')) :
    Ignores read (piece ++ behind) rest := by
  obtain ⟨front, hfront, rfl, hignores⟩ := h
  refine ⟨piece ++ front, by simp [hfront], by simp, fun blanks hblanks => ?_⟩
  have hhead := head?_skipBlanks_of_not_blank hfront (blanks ++ rest) rest
  rw [List.append_assoc, List.append_assoc, hread _ (stopsAlike_blanks hblanks front rest) hhead,
    hread _ (.inl rfl) rfl, hignores blanks hblanks]

theorem isBlankText_append_char {c : Char} (hc : isBlank c = false) (front : List Char) :
    isBlankText (front ++ [c]) = false := by
  simp [isBlankText, hc]

/-- The character that is taken, after blanks, is the last one before the rest. -/
theorem Ignores.char {α : Type} {read : List Char → α} {c : Char} (h : skipBlanks cs = c :: rest)
    (hread : ∀ cs blanks, isBlankText blanks = true → skipBlanks cs = c :: (blanks ++ rest) →
      read cs = read (c :: rest)) : Ignores read cs rest := by
  obtain ⟨front, hfront, rfl⟩ := eq_of_skipBlanks_eq h
  have hc := isBlank_of_skipBlanks_eq_cons h
  refine ⟨front ++ [c], isBlankText_append_char hc front, by simp, fun blanks hblanks => ?_⟩
  rw [List.append_assoc, List.append_assoc, List.singleton_append, List.singleton_append,
    hread _ blanks hblanks (skipBlanks_blanks_cons hfront hc), hread _ [] rfl h]

def closedList (answer : Except Failure (List Expr × List Char)) :
    Except Failure (List Expr × List Char) :=
  answer.map fun read => (read.1, skipBlanks read.2)

def callOf (depth : Nat) (e : Expr) (answer : Except Failure (List Expr × List Char)) :
    Except Failure (Expr × List Char) :=
  match answer with
  | .error failure => .error failure
  | .ok (args, rest) => readCalls depth (.apply e args) rest

theorem readCalls_eq_callOf (h : skipBlanks cs = '(' :: inner) :
    readCalls depth e cs = callOf depth e (closedList (readArguments depth inner)) := by
  rw [readCalls_open h]
  cases readArguments depth inner with
  | error failure => rfl
  | ok read => exact readCalls_skipBlanks.symm

def withFirst (e : Expr) (answer : Except Failure (List Expr × List Char)) :
    Except Failure (List Expr × List Char) :=
  answer.map fun read => (e :: read.1, read.2)

theorem closedList_readMore_comma (h : skipBlanks cs = ',' :: inner) :
    closedList (readMore depth e cs) = withFirst e (closedList (readArguments depth inner)) := by
  rw [readMore_comma h]
  cases readArguments depth inner <;> rfl

def listOf (depth : Nat) (answer : Except Failure (Expr × List Char)) :
    Except Failure (List Expr × List Char) :=
  match answer with
  | .error failure => .error failure
  | .ok (e, rest) => closedList (readMore depth e rest)

theorem closedList_readArguments_first (h : (skipBlanks cs).head? ≠ some ')') :
    closedList (readArguments depth cs) = listOf depth (readExpression depth cs) := by
  rw [readArguments_first h]
  cases readExpression depth cs <;> rfl

theorem Primary.skipped {first : List Char} (h : Primary first e rest)
    (hblanks : isBlankText blanks = true) : Primary (skipBlanks (blanks ++ first)) e rest := by
  rwa [skipBlanks_append hblanks, h.skipBlanks_eq]

/-- The first token of an expression, blanks before it included, and what is read once it is taken. -/
theorem Primary.stands_behind_blanks (h : Primary (skipBlanks cs) e rest) :
    ∃ piece, isBlankText piece = false ∧ cs = piece ++ rest ∧
      ∀ depth rest', StopsAlike rest rest' →
        readExpression (depth + 1) (piece ++ rest') = readCalls depth e rest' := by
  obtain ⟨blanks, hblanks, hcs⟩ := exists_blanks cs
  obtain ⟨token, hne, htoken, hstands⟩ := h.stands
  obtain ⟨c, more, hcons, hc, -⟩ := h.head
  obtain ⟨d, token, rfl⟩ := List.exists_cons_of_ne_nil hne
  rw [htoken, List.cons_append, List.cons.injEq] at hcons
  obtain ⟨rfl, -⟩ := hcons
  refine ⟨blanks ++ d :: token, by simp [isBlankText, hc], ?_, fun depth rest' hrest' => ?_⟩
  · rw [List.append_assoc, ← htoken, ← hcs]
  · rw [List.append_assoc]
    exact readExpression_primary ((hstands rest' hrest').skipped hblanks)

theorem Primary.ignores (h : Primary (skipBlanks cs) e rest) :
    Ignores (readExpression (depth + 1)) cs rest := by
  obtain ⟨piece, hpiece, rfl, hread⟩ := h.stands_behind_blanks
  refine ⟨piece, hpiece, rfl, fun blanks hblanks => ?_⟩
  have halike : StopsAlike rest (blanks ++ rest) := stopsAlike_blanks hblanks [] rest
  rw [hread depth _ halike, hread depth rest (.inl rfl)]
  exact eq_of_skipBlanks (fun _ => readCalls_skipBlanks) hblanks rest

/-- What is taken behind an opening parenthesis or a comma. -/
theorem Ignores.behindChar {α β : Type} {read : List Char → α} {read' : List Char → β} (g : β → α)
    {c : Char} (h : skipBlanks cs = c :: inner) (hinner : Ignores read' inner rest)
    (hread : ∀ cs inner, skipBlanks cs = c :: inner → read cs = g (read' inner)) :
    Ignores read cs rest := by
  obtain ⟨front, hfront, rfl⟩ := eq_of_skipBlanks_eq h
  have hc := isBlank_of_skipBlanks_eq_cons h
  rw [← List.singleton_append, ← List.append_assoc]
  refine hinner.behind g fun inner' _ _ => hread _ _ ?_
  rw [List.append_assoc, List.singleton_append, skipBlanks_blanks_cons hfront hc]

/-- An expression that was read is read alike whatever follows, if no argument list does. -/
theorem exists_of_readExpression {behind : List Char}
    (h : readExpression depth cs = .ok (e, behind)) :
    ∃ piece, cs = piece ++ behind ∧ ∀ behind', StopsAlike behind behind' →
      (skipBlanks behind').head? ≠ some '(' →
      readExpression depth (piece ++ behind') = .ok (e, skipBlanks behind') := by
  obtain ⟨hdepth, left, hexpr, rfl⟩ := derivesWhatIsRead depth h
  obtain ⟨blanks, hblanks, hleft⟩ := exists_blanks left
  obtain ⟨piece, -, hcs, hstands⟩ := hexpr.stands
  obtain ⟨depth, rfl⟩ : ∃ lower, depth = lower + 1 := ⟨depth - 1, by omega⟩
  refine ⟨piece ++ blanks, by rw [List.append_assoc, ← hleft, hcs], fun behind' halike hopen => ?_⟩
  have hskip : skipBlanks (blanks ++ behind') = skipBlanks behind' := skipBlanks_append hblanks behind'
  have hstop : StopsAlike left (blanks ++ behind') := by
    cases blanks with
    | nil => rwa [hleft]
    | cons c more => exact .inr (@no_word_in_blanks (c :: more) hblanks)
  rw [List.append_assoc, (hstands _ hstop).read depth, ifRoom, if_pos (Nat.le_of_lt_succ hdepth),
    readCalls_done (by rwa [hskip]), hskip]

theorem head?_ne_close_of_readExpression {behind : List Char}
    (h : readExpression depth cs = .ok (e, behind)) : (skipBlanks cs).head? ≠ some ')' := by
  obtain ⟨-, left, hexpr, -⟩ := derivesWhatIsRead depth h
  exact hexpr.head?_ne_close

theorem MoreTake.head?_ne_open (h : MoreTake depth cs rest) : (skipBlanks cs).head? ≠ some '(' := by
  cases h with
  | closing closes => simp [closes]
  | comma separates | next separates => simp [separates]

/-- A list of arguments that was read is read alike whatever follows. -/
theorem exists_of_readArguments {args : List Expr} {behind : List Char}
    (h : readArguments depth cs = .ok (args, behind)) :
    ∃ piece, cs = piece ++ behind ∧ ∀ behind', StopsAlike behind behind' →
      readArguments depth (piece ++ behind') = .ok (args, behind') := by
  obtain ⟨hdepth, hlist⟩ := readArguments_sound (derivesWhatIsRead depth) h
  obtain ⟨piece, -, rfl, hstands⟩ := hlist.stands
  refine ⟨piece, rfl, fun behind' halike => ?_⟩
  rw [(hstands behind' halike).read depth, ifRoom, if_pos hdepth]

mutual

theorem ExpressionTakes.ignores {depth : Nat} {cs rest : List Char} :
    ExpressionTakes depth cs rest → Ignores (readExpression depth) cs rest
  | .first primary => primary.ignores
  | @ExpressionTakes.calls depth _ _ _ e primary takes => by
    obtain ⟨piece, -, rfl, hread⟩ := primary.stands_behind_blanks
    exact (takes.ignores e).behind id fun behind' halike _ => hread depth behind' halike

theorem CallsTake.ignores {depth : Nat} {cs rest : List Char} :
    CallsTake depth cs rest → ∀ e, Ignores (readCalls depth e) cs rest
  | .opening opens, e => .char opens fun cs blanks hblanks hcs => by
    rw [readCalls_open hcs, readCalls_open (skipBlanks_cons (by decide) _),
      eq_of_skipBlanks (fun _ => readArguments_skipBlanks) hblanks]
  | .list opens takes, e => takes.ignores.behindChar (callOf depth e) opens fun _ _ => readCalls_eq_callOf
  | @CallsTake.next _ _ _ _ _ args opens list takes, e => by
    obtain ⟨front, hfront, rfl⟩ := eq_of_skipBlanks_eq opens
    obtain ⟨piece, rfl, hread⟩ := exists_of_readArguments list
    rw [← List.cons_append, ← List.append_assoc]
    refine (takes.ignores (.apply e args)).behind id fun behind' halike _ => ?_
    rw [List.append_assoc, List.cons_append, readCalls_open (skipBlanks_blanks_cons hfront (by decide)),
      hread behind' halike]
    rfl

theorem ArgumentsTake.ignores {depth : Nat} {cs rest : List Char} :
    ArgumentsTake depth cs rest → Ignores (fun cs => closedList (readArguments depth cs)) cs rest
  | .closing closes => .char closes fun cs blanks hblanks hcs => by
    rw [readArguments_close hcs, readArguments_close (skipBlanks_cons (by decide) _)]
    simp only [closedList, Except.map, skipBlanks_append hblanks]
  | .first goesOn takes => by
    show Ignores _ ([] ++ _) _
    exact takes.ignores.behind (listOf depth) fun behind' _ hhead =>
      closedList_readArguments_first (hhead ▸ goesOn)
  | @ArgumentsTake.more _ _ _ _ e goesOn first takes => by
    obtain ⟨piece, rfl, hread⟩ := exists_of_readExpression first
    have hopen := takes.head?_ne_open
    refine (takes.ignores e).behind id fun behind' halike hhead => ?_
    have hfirst := hread behind' halike (hhead ▸ hopen)
    rw [closedList_readArguments_first (head?_ne_close_of_readExpression hfirst), hfirst]
    exact congrArg closedList readMore_skipBlanks

theorem MoreTake.ignores {depth : Nat} {cs rest : List Char} :
    MoreTake depth cs rest → ∀ e, Ignores (fun cs => closedList (readMore depth e cs)) cs rest
  | .closing closes, e => .char closes fun cs blanks hblanks hcs => by
    rw [readMore_close hcs, readMore_close (skipBlanks_cons (by decide) _)]
    simp only [closedList, Except.map, skipBlanks_append hblanks]
  | .comma separates, e => .char separates fun cs blanks hblanks hcs => by
    rw [readMore_comma hcs, readMore_comma (skipBlanks_cons (by decide) _),
      eq_of_skipBlanks (fun _ => readArguments_skipBlanks) hblanks]
  | .next separates takes, e =>
    takes.ignores.behindChar (withFirst e) separates fun _ _ => closedList_readMore_comma

end

/-- A token stands at the front of the text. -/
inductive Token : (cs rest : List Char) → Prop where
  | primary {cs rest : List Char} {e : Expr} (first : Primary cs e rest) : Token cs rest
  | mark {c : Char} {rest : List Char} (char : c = '(' ∨ c = ')' ∨ c = ',') : Token (c :: rest) rest

/-- Reading ended at that rest, up to blanks, or there was no room. -/
def EndsAt {α : Type} (rest : List Char) : Except Failure (α × List Char) → Prop
  | .ok (_, left) => skipBlanks left = skipBlanks rest
  | .error (.refused _ left) => left = skipBlanks rest
  | .error .tooDeep => True

/-- The next token behind that rest is taken, or reading ends there. -/
def GoesOn {α : Type} (takes : List Char → Prop) (rest : List Char)
    (answer : Except Failure (α × List Char)) : Prop :=
  (∃ next, Token (skipBlanks rest) next ∧ takes next) ∨ EndsAt rest answer

theorem GoesOn.imp {α β : Type} {takes takes' : List Char → Prop}
    {answer : Except Failure (α × List Char)} {answer' : Except Failure (β × List Char)}
    (h : GoesOn takes rest answer) (htakes : ∀ next, takes next → takes' next)
    (hends : EndsAt rest answer → GoesOn takes' rest answer') : GoesOn takes' rest answer' := by
  rcases h with ⟨next, htoken, hnext⟩ | hend
  · exact .inl ⟨next, htoken, htakes next hnext⟩
  · exact hends hend

theorem goesOn_readCalls (depth : Nat) (e : Expr) (cs : List Char) :
    GoesOn (CallsTake depth cs) cs (readCalls depth e cs) := by
  by_cases hhead : (skipBlanks cs).head? = some '('
  · obtain ⟨inner, hopen⟩ := List.head?_eq_some_iff.1 hhead
    exact .inl ⟨inner, hopen ▸ .mark (.inl rfl), .opening hopen⟩
  · rw [readCalls_done hhead]
    exact .inr (skipBlanks_skipBlanks cs)

theorem goesOn_readExpression (depth : Nat) (cs : List Char) :
    GoesOn (ExpressionTakes depth cs) cs (readExpression depth cs) := by
  cases depth with
  | zero => exact .inr trivial
  | succ depth =>
    by_cases hfirst : ∃ first left, Primary (skipBlanks cs) first left
    · obtain ⟨first, left, hfirst⟩ := hfirst
      exact .inl ⟨left, .primary hfirst, .first hfirst⟩
    · simp only [not_exists] at hfirst
      rw [readExpression_refused hfirst]
      exact .inr rfl

theorem goesOn_readMore (depth : Nat) (e : Expr) (cs : List Char) :
    GoesOn (MoreTake depth cs) cs (readMore depth e cs) := by
  by_cases hclose : (skipBlanks cs).head? = some ')'
  · obtain ⟨behind, hclose⟩ := List.head?_eq_some_iff.1 hclose
    exact .inl ⟨behind, hclose ▸ .mark (.inr (.inl rfl)), .closing hclose⟩
  · by_cases hcomma : (skipBlanks cs).head? = some ','
    · obtain ⟨inner, hcomma⟩ := List.head?_eq_some_iff.1 hcomma
      exact .inl ⟨inner, hcomma ▸ .mark (.inr (.inr rfl)), .comma hcomma⟩
    · rw [readMore_refused hclose hcomma]
      exact .inr rfl

/-- What reading does at a place does not depend on the blanks there. -/
theorem GoesOn.at {α : Type} {takes : List Char → Prop} {answer : Except Failure (α × List Char)}
    {left : List Char} (h : GoesOn takes left answer) (hskip : skipBlanks left = skipBlanks rest) :
    GoesOn takes rest answer := by
  have hends : EndsAt left answer = EndsAt rest answer := by
    unfold EndsAt
    rw [hskip]
  rwa [GoesOn, hskip, hends] at h

/-- Once the first argument was read, what is behind it is looked at. -/
theorem goesOn_behind_first (goesOn : (skipBlanks cs).head? ≠ some ')')
    (h : EndsAt rest (readExpression depth cs)) :
    GoesOn (ArgumentsTake depth cs) rest (readArguments depth cs) := by
  rw [readArguments_first goesOn]
  cases hread : readExpression depth cs with
  | error failure =>
    rw [hread] at h
    cases failure <;> exact .inr h
  | ok read =>
    rw [hread] at h
    exact ((goesOn_readMore depth read.1 read.2).at h).imp (fun _ => .more goesOn hread) .inr

theorem goesOn_readArguments (depth : Nat) (cs : List Char) :
    GoesOn (ArgumentsTake depth cs) cs (readArguments depth cs) := by
  by_cases hhead : (skipBlanks cs).head? = some ')'
  · obtain ⟨behind, hclose⟩ := List.head?_eq_some_iff.1 hhead
    exact .inl ⟨behind, hclose ▸ .mark (.inr (.inl rfl)), .closing hclose⟩
  · exact (goesOn_readExpression depth cs).imp (fun _ => .first hhead) (goesOn_behind_first hhead)

/-- Once a list was read, the next one is looked for. -/
theorem goesOn_behind_list (opens : skipBlanks cs = '(' :: inner)
    (h : EndsAt rest (readArguments depth inner)) :
    GoesOn (CallsTake depth cs) rest (readCalls depth e cs) := by
  rw [readCalls_open opens]
  cases hread : readArguments depth inner with
  | error failure =>
    rw [hread] at h
    cases failure <;> exact .inr h
  | ok read =>
    rw [hread] at h
    exact ((goesOn_readCalls depth (.apply e read.1) read.2).at h).imp (fun _ => .next opens hread) .inr

/-- Once a comma was taken, the arguments behind it are read. -/
theorem endsAt_behind_comma (separates : skipBlanks cs = ',' :: inner)
    (h : EndsAt rest (readArguments depth inner)) : EndsAt rest (readMore depth e cs) := by
  rw [readMore_comma separates]
  cases hread : readArguments depth inner with
  | error failure =>
    rw [hread] at h
    cases failure <;> exact h
  | ok read =>
    rw [hread] at h
    exact h

mutual

theorem ExpressionTakes.goesOn {depth : Nat} {cs rest : List Char} : ExpressionTakes depth cs rest →
    GoesOn (ExpressionTakes depth cs) rest (readExpression depth cs)
  | @ExpressionTakes.first depth _ rest e primary => by
    rw [readExpression_primary primary]
    exact (goesOn_readCalls depth e rest).imp (fun _ => .calls primary) .inr
  | @ExpressionTakes.calls _ _ _ _ e primary takes => by
    rw [readExpression_primary primary]
    exact (takes.goesOn e).imp (fun _ => .calls primary) .inr

theorem CallsTake.goesOn {depth : Nat} {cs rest : List Char} : CallsTake depth cs rest →
    ∀ e, GoesOn (CallsTake depth cs) rest (readCalls depth e cs)
  | .opening opens, e =>
    (goesOn_readArguments depth rest).imp (fun _ => .list opens) (goesOn_behind_list opens)
  | .list opens takes, e =>
    takes.goesOn.imp (fun _ => .list opens) (goesOn_behind_list opens)
  | @CallsTake.next _ _ _ _ _ args opens list takes, e => by
    rw [readCalls_open opens, list]
    exact (takes.goesOn (.apply e args)).imp (fun _ => .next opens list) .inr

theorem ArgumentsTake.goesOn {depth : Nat} {cs rest : List Char} : ArgumentsTake depth cs rest →
    GoesOn (ArgumentsTake depth cs) rest (readArguments depth cs)
  | .closing closes => by
    rw [readArguments_close closes]
    exact .inr rfl
  | .first goesOn takes => takes.goesOn.imp (fun _ => .first goesOn) (goesOn_behind_first goesOn)
  | @ArgumentsTake.more _ _ _ _ e goesOn first takes => by
    rw [readArguments_first goesOn, first]
    exact (takes.goesOn e).imp (fun _ => .more goesOn first) .inr

theorem MoreTake.goesOn {depth : Nat} {cs rest : List Char} : MoreTake depth cs rest →
    ∀ e, GoesOn (MoreTake depth cs) rest (readMore depth e cs)
  | .closing closes, e => by
    rw [readMore_close closes]
    exact .inr rfl
  | .comma separates, e =>
    (goesOn_readArguments depth rest).imp (fun _ => .next separates)
      fun h => .inr (endsAt_behind_comma separates h)
  | .next separates takes, e =>
    takes.goesOn.imp (fun _ => .next separates) fun h => .inr (endsAt_behind_comma separates h)

end

/-- Reading goes on at the next border, or ends behind this one. -/
theorem IsBorder.goesOn {place : Nat} (h : IsBorder depth cs place) :
    GoesOn (fun rest => ∃ next, rest = cs.drop next ∧ IsBorder depth cs next) (cs.drop place)
      (readExpression depth cs) := by
  have hnext : ∀ rest, ExpressionTakes depth cs rest →
      ∃ next, rest = cs.drop next ∧ IsBorder depth cs next := by
    intro rest htakes
    obtain ⟨front, -, hcs, -⟩ := htakes.ignores
    have hrest : rest = cs.drop front.length := by
      rw [hcs, List.drop_left]
    exact ⟨front.length, hrest, .inr (hrest ▸ htakes)⟩
  rcases h with rfl | htakes
  · exact (goesOn_readExpression depth cs).imp hnext .inr
  · exact htakes.goesOn.imp hnext .inr

/-- Blanks that are put in behind a token that is taken do not change the answer, and neither does the rest
of the text at which it may be refused. -/
theorem program_insert_blanks {place : Nat} (hborder : IsBorder depth cs place)
    (hblanks : isBlankText blanks = true) :
    program depth (cs.take place ++ (blanks ++ cs.drop place)) = program depth cs := by
  rcases hborder with rfl | htakes
  · exact program_blanks hblanks cs
  · obtain ⟨front, -, hcs, hignores⟩ := htakes.ignores
    have hfront : cs.take place = front := by
      have hcut := (List.take_append_drop place cs).trans hcs
      exact List.append_cancel_right hcut
    rw [hfront, program_eq, program_eq, hignores blanks hblanks, ← hcs]

/-- The refusal of a text in which so many characters were put in before the place of the refusal. -/
def ParseError.movedBy (count : Nat) : ParseError → ParseError
  | .refused refusal offset => .refused refusal (offset + count)
  | .tooDeep => .tooDeep

/-- Parsing a text ends behind that place: only blanks are left there, or the text is refused at the next
character that is none, or there was no room. -/
def ParseEndsAt (depth : Nat) (text : String) (place : Nat) : Prop :=
  match parse depth text with
  | .ok _ => isBlankText (text.toList.drop place) = true
  | .error (.refused _ offset) =>
    offset = text.toList.length - (skipBlanks (text.toList.drop place)).length
  | .error .tooDeep => True

theorem parseEndsAt_of_endsAt {text : String} {place : Nat}
    (h : EndsAt (text.toList.drop place) (readExpression depth text.toList)) :
    ParseEndsAt depth text place := by
  simp only [ParseEndsAt, parse, program_eq]
  cases hread : readExpression depth text.toList with
  | error failure =>
    rw [hread] at h
    cases failure with
    | tooDeep => trivial
    | refused refusal left =>
      have hleft : left = skipBlanks (text.toList.drop place) := h
      simp only [hleft]
  | ok read =>
    rw [hread] at h
    have hleft : skipBlanks read.2 = skipBlanks (text.toList.drop place) := h
    by_cases hrest : skipBlanks (text.toList.drop place) = []
    · simp only [hleft, hrest, if_true]
      exact skipBlanks_eq_nil_iff.1 hrest
    · simp only [hleft, if_neg hrest]

/-- Blanks put in at a border of a text. -/
theorem parse_insert_blanks {text blanks : String} {place : Nat}
    (hborder : IsBorder depth text.toList place) (hblanks : isBlankText blanks.toList = true) :
    parse depth (String.ofList (text.toList.take place) ++ blanks ++
        String.ofList (text.toList.drop place)) =
      (parse depth text).mapError (·.movedBy blanks.length) := by
  have hprogram := program_insert_blanks hborder hblanks
  have htext : (String.ofList (text.toList.take place) ++ blanks ++
      String.ofList (text.toList.drop place)).toList =
      text.toList.take place ++ (blanks.toList ++ text.toList.drop place) := by
    simp only [String.toList_append, String.toList_ofList, List.append_assoc]
  have hlength : (text.toList.take place ++ (blanks.toList ++ text.toList.drop place)).length =
      text.toList.length + blanks.length := by
    have hcut := congrArg List.length (List.take_append_drop place text.toList)
    rw [List.length_append] at hcut
    rw [List.length_append, List.length_append, String.length_toList]
    omega
  simp only [parse, htext, hprogram, hlength]
  cases hread : program depth text.toList with
  | ok e => rfl
  | error failure =>
    cases failure with
    | tooDeep => rfl
    | refused refusal rest =>
      obtain ⟨-, opened, -, hpasses⟩ := refused_of_program hread
      have hrest := hpasses.suffix.length_le
      exact congrArg (fun offset => Except.error (ParseError.refused refusal offset))
        (Nat.sub_add_comm hrest)

/-- Blanks between tokens do not matter. The borders of a text are its beginning and the end of each token
that is taken while the text is parsed, one token after another up to where parsing ends. If blanks are put
in at a border, parsing gives the same tree, or it refuses the text for the same reason and as much
further on as there are blanks. -/
theorem blanks_between_tokens_do_not_matter {text : String} {place : Nat}
    (hborder : IsBorder depth text.toList place) :
    (∀ blanks : String, isBlankText blanks.toList = true →
      parse depth (String.ofList (text.toList.take place) ++ blanks ++
          String.ofList (text.toList.drop place)) =
        (parse depth text).mapError (·.movedBy blanks.length)) ∧
      ((∃ next, Token (skipBlanks (text.toList.drop place)) (text.toList.drop next) ∧
          IsBorder depth text.toList next) ∨
        ParseEndsAt depth text place) := by
  refine ⟨fun blanks => parse_insert_blanks hborder, ?_⟩
  rcases hborder.goesOn with ⟨rest, htoken, next, rfl, hnext⟩ | hend
  · exact .inl ⟨next, htoken, hnext⟩
  · exact .inr (parseEndsAt_of_endsAt hend)

/-- A number that a letter outside of ASCII follows is taken, and the text is refused at the letter, with
a line end and a blank in between or not. -/
theorem blanks_between_tokens_do_not_matter_behind_number :
    IsBorder 400 "f(12é)".toList 4 ∧ isBlankText "\n ".toList = true ∧
      parse 400 ("f(12" ++ "\n " ++ "é)") = .error (.refused .expectedSeparator 6) ∧
      parse 400 "f(12é)" = .error (.refused .expectedSeparator 4) := by
  have operator : Primary "f(12é)".toList (.word "f") "(12é)".toList :=
    @primary_word _ ['f'] ⟨by decide, List.all_eq_true.1 (by decide), by decide⟩ rfl
  have number : Primary "12é)".toList (numberLiteral ['1', '2']) "é)".toList :=
    .number ⟨rfl, by decide, List.all_eq_true.1 (by decide), rfl⟩
  have hborder : IsBorder 400 "f(12é)".toList 4 :=
    .inr (.calls operator (.list rfl (.first (by decide) (.first number))))
  have stops : ProgramStops "f(12é)".toList .expectedSeparator "é)".toList :=
    .expression (@ExpressionStops.call _ [] _ _ _ _ (.ofPrimary operator) rfl
      (.more (.ofPrimary number) (@MoreStop.separator "é)".toList (by decide) (by decide) (by decide))))
  have hroom : parse 400 "f(12é)" ≠ .error .tooDeep := fun hdeep =>
    program_ne_tooDeep (by decide) (parse_eq_tooDeep_iff_program.1 hdeep)
  have hparse : parse 400 "f(12é)" = .error (.refused .expectedSeparator 4) := stops.parse hroom
  have hblanks : isBlankText "\n ".toList = true := rfl
  have hmoved := (@blanks_between_tokens_do_not_matter 400 "f(12é)" 4 hborder).1 "\n " hblanks
  rw [hparse] at hmoved
  exact ⟨hborder, hblanks, hmoved, hparse⟩

end CallScript.Grammar
