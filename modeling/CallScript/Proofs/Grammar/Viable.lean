import CallScript.Proofs.Grammar.Placement
import CallScript.Proofs.Grammar.Refusal
import CallScript.Proofs.Grammar.TrailingBlanks
import CallScript.Report.Raised

/-!
# How far a refused text is right

The place where a text is refused divides it. What stands before the place can be completed to a
program: a word or a string is put there if an expression was missing, and then the lists under way are
closed. With the character at the place nothing can be done any more, since reading is refused there
whatever follows; unless that character is the quote of a string that is not closed, or there is none.
-/

namespace CallScript.Grammar

open Text CallScript.Expr

variable {depth : Nat} {cs rest : List Char} {e : Expr} {refusal : Refusal}

/-- The text can be extended to one that parsing accepts. -/
def Viable (front : List Char) : Prop :=
  ∃ behind depth e, parse depth (String.ofList (front ++ behind)) = .ok e

theorem viable_iff {front : List Char} : Viable front ↔ ∃ behind e, Program (front ++ behind) e := by
  constructor
  · rintro ⟨behind, depth, e, h⟩
    have hprogram := (parse_eq_ok_iff.1 h).1
    rw [String.toList_ofList] at hprogram
    exact ⟨behind, e, hprogram⟩
  · rintro ⟨behind, e, h⟩
    refine ⟨behind, e.callDepth + 1, e, ?_⟩
    rw [← String.toList_ofList (l := front ++ behind)] at h
    rw [h.parse, if_pos (Nat.lt_succ_self _)]

theorem Viable.of_append {front behind : List Char} (h : Viable (front ++ behind)) : Viable front := by
  obtain ⟨behind', e, hprogram⟩ := viable_iff.1 h
  rw [List.append_assoc] at hprogram
  exact viable_iff.2 ⟨behind ++ behind', e, hprogram⟩

/-- A place is the end of the text or a character that is no blank, and where an expression is missing
none begins. -/
structure StoppingPlace (refusal : Refusal) (rest : List Char) : Prop where
  noBlank : skipBlanks rest = rest
  noPrimary : refusal = .unexpected → ∀ e left, ¬ Primary rest e left

mutual

theorem ExpressionStops.place {cs rest : List Char} {refusal : Refusal} :
    ExpressionStops cs refusal rest → StoppingPlace refusal rest
  | .first noPrimary => ⟨skipBlanks_skipBlanks _, fun _ => noPrimary⟩
  | .call _ _ list => list.place

theorem ArgumentsStop.place {cs rest : List Char} {refusal : Refusal} :
    ArgumentsStop cs refusal rest → StoppingPlace refusal rest
  | .first _ stops => stops.place
  | .more _ stops => stops.place

theorem MoreStop.place {cs rest : List Char} {refusal : Refusal} :
    MoreStop cs refusal rest → StoppingPlace refusal rest
  | .separator .. => ⟨skipBlanks_skipBlanks _, nofun⟩
  | .next _ stops => stops.place

end

theorem ProgramStops.place (h : ProgramStops cs refusal rest) : StoppingPlace refusal rest := by
  cases h with
  | expression stops => exact stops.place
  | trailing whole more noOpen => exact ⟨skipBlanks_skipBlanks _, nofun⟩

theorem StoppingPlace.not_blank {c : Char} {more : List Char} (h : StoppingPlace refusal (c :: more)) :
    isBlank c = false :=
  isBlank_of_skipBlanks_eq_cons h.noBlank

/-- What may be put at a place so that reading goes on there. -/
inductive Filler : Refusal → List Char → Prop where
  | word : Filler .unexpected ['x']
  | string {content : List Char} (closed : '"' ∉ content) :
      Filler .unexpected ('"' :: (content ++ ['"']))
  | nothing {refusal : Refusal} (past : refusal ≠ .unexpected) : Filler refusal []

/-- What stands before the place and a filler can be completed to what is derived, before any text that
no word begins. -/
def Completes (derives : List Char → List Char → Prop) (cs : List Char) (refusal : Refusal)
    (rest : List Char) : Prop :=
  ∃ front, cs = front ++ rest ∧ ∀ hole, Filler refusal hole → ∃ closing, ∀ tail : List Char,
    tail.head?.any isWordChar = false → derives (front ++ (hole ++ (closing ++ tail))) tail

theorem Filler.primary {hole : List Char} (h : Filler .unexpected hole) {tail : List Char}
    (htail : tail.head?.any isWordChar = false) : ∃ e, Primary (hole ++ tail) e tail := by
  cases h with
  | word => exact ⟨_, primary_word ⟨by decide, List.all_eq_true.1 (by decide), by decide⟩ htail⟩
  | @string content closed =>
    rw [List.cons_append, List.append_assoc, List.singleton_append]
    exact ⟨_, .string closed⟩
  | nothing past => exact absurd rfl past

theorem MoreArguments.no_word {es : List Expr} (h : MoreArguments cs es rest) :
    cs.head?.any isWordChar = false := by
  cases h with
  | @close blanks rest blank | @closeAfterComma blanks _ _ blank | @next blanks _ _ _ _ _ blank =>
    cases blanks with
    | nil => rfl
    | cons c more => exact @no_word_in_blanks (c :: more) blank

theorem stopsAlike_append_cons (front : List Char) (c : Char) (more more' : List Char) :
    StopsAlike (front ++ c :: more) (front ++ c :: more') := by
  cases front <;> exact .inl rfl

theorem Expression.opens {blanks inner : List Char} (h : Expression cs e (blanks ++ '(' :: inner)) :
    ∃ piece, cs = piece ++ (blanks ++ '(' :: inner) ∧
      ∀ inner', Expression (piece ++ (blanks ++ '(' :: inner')) e (blanks ++ '(' :: inner') := by
  obtain ⟨piece, -, hcs, hpiece⟩ := h.stands
  exact ⟨piece, hcs, fun inner' => hpiece _ (stopsAlike_append_cons blanks '(' inner inner')⟩

mutual

theorem ExpressionStops.completes {cs rest : List Char} {refusal : Refusal} :
    ExpressionStops cs refusal rest →
      Completes (fun text tail => ∃ e, Expression text e tail) cs refusal rest
  | .first noPrimary => by
    obtain ⟨blanks, hblanks, hcs⟩ := exists_blanks cs
    refine ⟨blanks, hcs, fun hole hhole => ⟨[], fun tail htail => ?_⟩⟩
    obtain ⟨e, h⟩ := hhole.primary htail
    exact ⟨e, .primary hblanks h⟩
  | @ExpressionStops.call _ blanks _ _ operator _ before blank list => by
    obtain ⟨piece, rfl, hpiece⟩ := before.opens
    obtain ⟨front, rfl, hfront⟩ := list.completes
    refine ⟨piece ++ (blanks ++ '(' :: front), by simp, fun hole hhole => ?_⟩
    obtain ⟨closing, hclosing⟩ := hfront hole hhole
    refine ⟨closing, fun tail htail => ?_⟩
    obtain ⟨args, hargs⟩ := hclosing tail htail
    refine ⟨.apply operator args, ?_⟩
    simpa using Expression.call (hpiece _) blank hargs

theorem ArgumentsStop.completes {cs rest : List Char} {refusal : Refusal} :
    ArgumentsStop cs refusal rest →
      Completes (fun text tail => ∃ es, Arguments text es tail) cs refusal rest
  | .first _ stops => by
    obtain ⟨front, rfl, hfront⟩ := stops.completes
    refine ⟨front, rfl, fun hole hhole => ?_⟩
    obtain ⟨closing, hclosing⟩ := hfront hole hhole
    refine ⟨closing ++ [')'], fun tail _ => ?_⟩
    obtain ⟨e, he⟩ := hclosing (')' :: tail) rfl
    refine ⟨[e], ?_⟩
    rw [List.append_assoc, List.singleton_append]
    exact .nonempty he (@MoreArguments.close [] tail isBlankText_nil)
  | @ArgumentsStop.more _ _ _ e _ first stops => by
    obtain ⟨piece, -, rfl, hpiece⟩ := first.stands
    obtain ⟨front, rfl, hfront⟩ := stops.completes
    refine ⟨piece ++ front, by simp, fun hole hhole => ?_⟩
    obtain ⟨closing, hclosing⟩ := hfront hole hhole
    refine ⟨closing, fun tail htail => ?_⟩
    obtain ⟨es, hes⟩ := hclosing tail htail
    refine ⟨e :: es, ?_⟩
    rw [List.append_assoc]
    exact .nonempty (hpiece _ (.inr hes.no_word)) hes

theorem MoreStop.completes {cs rest : List Char} {refusal : Refusal} :
    MoreStop cs refusal rest →
      Completes (fun text tail => ∃ es, MoreArguments text es tail) cs refusal rest
  | .separator .. => by
    obtain ⟨blanks, hblanks, hcs⟩ := exists_blanks cs
    refine ⟨blanks, hcs, fun hole hhole => ⟨[')'], fun tail _ => ⟨[], ?_⟩⟩⟩
    cases hhole
    exact .close hblanks
  | @MoreStop.next blanks _ _ _ blank stops => by
    obtain ⟨front, rfl, hfront⟩ := stops.completes
    refine ⟨blanks ++ ',' :: front, by simp, fun hole hhole => ?_⟩
    obtain ⟨closing, hclosing⟩ := hfront hole hhole
    refine ⟨closing, fun tail htail => ?_⟩
    obtain ⟨es, hes⟩ := hclosing tail htail
    refine ⟨es, ?_⟩
    simpa using hes.afterComma blank

end

theorem ProgramStops.viable (h : ProgramStops cs refusal rest) :
    ∃ front, cs = front ++ rest ∧ ∀ hole, Filler refusal hole → Viable (front ++ hole) := by
  cases h with
  | expression stops =>
    obtain ⟨front, hcs, hfront⟩ := stops.completes
    refine ⟨front, hcs, fun hole hhole => viable_iff.2 ?_⟩
    obtain ⟨closing, hclosing⟩ := hfront hole hhole
    obtain ⟨e, he⟩ := hclosing [] rfl
    refine ⟨closing, e, [], ?_, isBlankText_nil⟩
    simpa using he
  | @trailing behind e whole more noOpen =>
    obtain ⟨piece, -, rfl, hpiece⟩ := whole.stands
    obtain ⟨blanks, hblanks, hbehind⟩ := exists_blanks behind
    refine ⟨piece ++ blanks, by rw [List.append_assoc, ← hbehind], fun hole hhole => viable_iff.2 ?_⟩
    have hstop : StopsAlike behind blanks := .inr (no_word_in_blanks hblanks)
    cases hhole
    refine ⟨[], e, blanks, ?_, hblanks⟩
    simpa using hpiece blanks hstop

theorem head?_skipBlanks_append {c : Char} (hc : isBlank c = false) (front more more' : List Char) :
    (skipBlanks (front ++ c :: more)).head? = (skipBlanks (front ++ c :: more')).head? := by
  induction front with
  | nil => simp [skipBlanks_cons hc]
  | cons d front ih =>
    cases hd : isBlank d with
    | true => simpa [skipBlanks, hd] using ih
    | false => simp [skipBlanks_cons hd]

/-- The text stops at the same place whatever follows the character there. -/
def StopsAnyway (stops : List Char → Refusal → List Char → Prop) (cs : List Char) (refusal : Refusal)
    (c : Char) (more : List Char) : Prop :=
  ∃ front, cs = front ++ c :: more ∧ ∀ more', stops (front ++ c :: more') refusal (c :: more')

theorem no_primary_of_no_primary {c : Char} {more : List Char} (hquote : c ≠ '"')
    (h : ∀ e rest, ¬ Primary (c :: more) e rest) (more' : List Char) (e : Expr) (rest : List Char) :
    ¬ Primary (c :: more') e rest := by
  intro hprimary
  rcases exists_primary_iff.1 ⟨e, rest, hprimary⟩ with ⟨hc, -⟩ | hc
  · exact hquote hc
  · obtain ⟨e', rest', h'⟩ := exists_primary_iff.2 (.inr hc)
    exact h e' rest' h'

mutual

theorem ExpressionStops.anyway {cs rest : List Char} {refusal : Refusal} {c : Char}
    {more : List Char} : ExpressionStops cs refusal rest → rest = c :: more →
    (refusal = .unexpected → c ≠ '"') → StopsAnyway ExpressionStops cs refusal c more
  | .first noPrimary, hrest, hquote => by
    have hc := isBlank_of_skipBlanks_eq_cons hrest
    obtain ⟨blanks, hblanks, rfl⟩ := eq_of_skipBlanks_eq hrest
    refine ⟨blanks, rfl, fun more' => ?_⟩
    rw [hrest] at noPrimary
    have hskip : skipBlanks (blanks ++ c :: more') = c :: more' := skipBlanks_blanks_cons hblanks hc
    have hfirst := @ExpressionStops.first (blanks ++ c :: more')
    rw [hskip] at hfirst
    exact hfirst (no_primary_of_no_primary (hquote rfl) noPrimary more')
  | @ExpressionStops.call _ blanks _ _ _ _ before blank list, hrest, hquote => by
    obtain ⟨piece, rfl, hpiece⟩ := before.opens
    obtain ⟨front, rfl, hfront⟩ := list.anyway hrest hquote
    refine ⟨piece ++ (blanks ++ '(' :: front), by simp, fun more' => ?_⟩
    simpa using ExpressionStops.call (hpiece _) blank (hfront more')

theorem ArgumentsStop.anyway {cs rest : List Char} {refusal : Refusal} {c : Char}
    {more : List Char} : ArgumentsStop cs refusal rest → rest = c :: more →
    (refusal = .unexpected → c ≠ '"') → StopsAnyway ArgumentsStop cs refusal c more
  | .first goesOn stops, hrest, hquote => by
    have hc := (hrest ▸ stops.place).not_blank
    obtain ⟨front, rfl, hfront⟩ := stops.anyway hrest hquote
    refine ⟨front, rfl, fun more' => .first ?_ (hfront more')⟩
    rwa [head?_skipBlanks_append hc front more' more]
  | .more first stops, hrest, hquote => by
    obtain ⟨piece, -, rfl, hpiece⟩ := first.stands
    obtain ⟨front, rfl, hfront⟩ := stops.anyway hrest hquote
    refine ⟨piece ++ front, by simp, fun more' => ?_⟩
    rw [List.append_assoc]
    exact .more (hpiece _ (stopsAlike_append_cons front c more more')) (hfront more')

theorem MoreStop.anyway {cs rest : List Char} {refusal : Refusal} {c : Char}
    {more : List Char} : MoreStop cs refusal rest → rest = c :: more →
    (refusal = .unexpected → c ≠ '"') → StopsAnyway MoreStop cs refusal c more
  | .separator noClose noComma noOpen, hrest, _ => by
    have hc := isBlank_of_skipBlanks_eq_cons hrest
    obtain ⟨blanks, hblanks, rfl⟩ := eq_of_skipBlanks_eq hrest
    refine ⟨blanks, rfl, fun more' => ?_⟩
    have hskip : skipBlanks (blanks ++ c :: more') = c :: more' := skipBlanks_blanks_cons hblanks hc
    have hstop := @MoreStop.separator (blanks ++ c :: more')
    rw [hskip] at hstop
    rw [hrest] at noClose noComma noOpen
    exact hstop noClose noComma noOpen
  | @MoreStop.next blanks _ _ _ blank stops, hrest, hquote => by
    obtain ⟨front, rfl, hfront⟩ := stops.anyway hrest hquote
    refine ⟨blanks ++ ',' :: front, by simp, fun more' => ?_⟩
    simpa using MoreStop.next blank (hfront more')

end

theorem ProgramStops.anyway {c : Char} {more : List Char} (h : ProgramStops cs refusal (c :: more))
    (hquote : refusal = .unexpected → c ≠ '"') : StopsAnyway ProgramStops cs refusal c more := by
  generalize hrest : c :: more = rest at h
  cases h with
  | expression stops =>
    obtain ⟨front, hcs, hfront⟩ := stops.anyway hrest.symm hquote
    exact ⟨front, hcs, fun more' => .expression (hfront more')⟩
  | @trailing behind e whole hmore noOpen =>
    have hc := isBlank_of_skipBlanks_eq_cons hrest.symm
    obtain ⟨piece, -, rfl, hpiece⟩ := whole.stands
    obtain ⟨blanks, hblanks, rfl⟩ := eq_of_skipBlanks_eq hrest.symm
    refine ⟨piece ++ blanks, by simp, fun more' => ?_⟩
    have hskip : skipBlanks (blanks ++ c :: more') = c :: more' := skipBlanks_blanks_cons hblanks hc
    have hstop := ProgramStops.trailing (hpiece _ (stopsAlike_append_cons blanks c more more'))
    rw [hskip] at hstop
    rw [← hrest] at noOpen
    rw [List.append_assoc]
    exact hstop (List.cons_ne_nil _ _) noOpen

theorem parse_refused {text : String} {offset : Nat}
    (h : parse depth text = .error (.refused refusal offset)) :
    ∃ rest, ProgramStops text.toList refusal rest ∧ offset = text.toList.length - rest.length := by
  unfold parse at h
  cases hread : program depth text.toList with
  | ok e => simp [hread] at h
  | error failure =>
    cases failure with
    | tooDeep => simp [hread] at h
    | refused refusal' rest =>
      simp only [hread, Except.error.injEq, ParseError.refused.injEq] at h
      obtain ⟨rfl, hoffset⟩ := h
      exact ⟨rest, program_stops hread, hoffset.symm⟩

theorem ProgramStops.parse {text : String} (h : ProgramStops text.toList refusal rest)
    (hroom : parse depth text ≠ .error .tooDeep) :
    parse depth text = .error (.refused refusal (text.toList.length - rest.length)) := by
  rcases h.refuses depth with hrefused | hdeep
  · simp only [Grammar.parse, hrefused]
  · exact absurd (parse_eq_tooDeep_iff_program.2 hdeep) hroom

/-- A refused text can be extended to a program if it was refused at its end or at the quote of a string
that is not closed. -/
theorem ProgramStops.viable_self (h : ProgramStops cs refusal rest)
    (hrest : rest = [] ∨ refusal = .unexpected ∧ rest.head? = some '"') : Viable cs := by
  have hplace := h.place
  obtain ⟨front, rfl, hfront⟩ := h.viable
  rcases hrest with rfl | ⟨rfl, hquote⟩
  · cases refusal with
    | unexpected =>
      obtain ⟨behind, e, hprogram⟩ := viable_iff.1 (hfront _ .word)
      exact viable_iff.2 ⟨['x'] ++ behind, e, by simpa using hprogram⟩
    | expectedSeparator | trailing => exact hfront [] (.nothing nofun)
  · obtain ⟨content, rfl⟩ := List.head?_eq_some_iff.1 hquote
    have closed : '"' ∉ content := by
      intro hmem
      obtain ⟨e, left, h⟩ := exists_primary_iff.2 (.inl ⟨rfl, hmem⟩)
      exact hplace.noPrimary rfl e left h
    obtain ⟨behind, e, hprogram⟩ := viable_iff.1 (hfront _ (.string closed))
    exact viable_iff.2 ⟨['"'] ++ behind, e, by simpa using hprogram⟩

/-- The character at any other place spoils the text. -/
theorem ProgramStops.not_viable {c : Char} {front more : List Char}
    (h : ProgramStops (front ++ c :: more) refusal (c :: more))
    (hquote : refusal = .unexpected → c ≠ '"') : ¬ Viable (front ++ [c]) := by
  obtain ⟨front', hcs, hfront⟩ := h.anyway hquote
  obtain rfl : front = front' := List.append_cancel_right hcs
  intro hviable
  obtain ⟨behind, e, hprogram⟩ := viable_iff.1 hviable
  rw [List.append_assoc, List.singleton_append] at hprogram
  exact (hfront behind).not_program hprogram

/-- The error of a refused text holds the text and the offset of a character that is no blank, or of
its end. What stands before the offset can be extended to a text that is accepted. The text itself can
if the offset is its end or is that of the quote of a string that is not closed; if it cannot, the
character at the offset spoils it. -/
theorem refusal_points_at_failure {text : String} {offset : Nat}
    (h : parse depth text = .error (.refused refusal offset)) :
    ∃ d, Raised.ofParseError text (.refused refusal offset) = .complaint d ∧
      d.kind = .syntaxError ∧ d.source = text ∧ d.start = offset ∧ offset ≤ text.toList.length ∧
      (∀ c, text.toList[offset]? = some c → isBlank c = false) ∧
      Viable (text.toList.take offset) ∧
      (Viable text.toList ↔ offset = text.toList.length ∨
        d.message = "Unexpected syntax" ∧ text.toList[offset]? = some '"') ∧
      (¬ Viable text.toList → ¬ Viable (text.toList.take (offset + 1))) := by
  obtain ⟨rest, hstops, hoffset⟩ := parse_refused h
  refine ⟨_, rfl, rfl, rfl, rfl, by omega, ?_⟩
  obtain ⟨front, hcs, hfront⟩ := hstops.viable
  have hlength : offset = front.length := by
    rw [hoffset, hcs, List.length_append]
    omega
  have hmessage : refusal.message = "Unexpected syntax" ↔ refusal = .unexpected := by
    cases refusal <;> decide
  rw [hcs] at hstops ⊢
  simp only [hlength, List.take_left, Diagnostic.ofRefusal, hmessage]
  cases rest with
  | nil =>
    have hviable := hstops.viable_self (.inl rfl)
    rw [List.append_nil] at hviable ⊢
    simp [hviable]
  | cons c more =>
    have hchar : (front ++ c :: more)[front.length]? = some c := by simp
    have htake : (front ++ c :: more).take (front.length + 1) = front ++ [c] := by
      rw [List.take_length_add_append]
      rfl
    have hfiller : Viable front := by
      by_cases hunexpected : refusal = .unexpected
      · exact (hfront ['x'] (hunexpected ▸ .word)).of_append
      · simpa using hfront [] (.nothing hunexpected)
    have hviable : Viable (front ++ c :: more) ↔ refusal = .unexpected ∧ c = '"' := by
      refine ⟨fun h => ?_, fun h => hstops.viable_self (.inr ⟨h.1, by rw [h.2]; rfl⟩)⟩
      by_cases hopen : refusal = .unexpected ∧ c = '"'
      · exact hopen
      · rw [List.append_cons] at h
        exact absurd h.of_append (hstops.not_viable fun hunexpected hc => hopen ⟨hunexpected, hc⟩)
    rw [hchar, htake, hviable]
    refine ⟨fun d hd => ?_, hfiller, by simp, fun hother => ?_⟩
    · obtain rfl : c = d := Option.some.inj hd
      exact hstops.place.not_blank
    · exact hstops.not_viable fun hunexpected hc => hother ⟨hunexpected, hc⟩

/-- In a call, an argument that is a string without its second quote. -/
theorem refusal_points_at_open_string :
    parse 8 "f(1, \"x" = .error (.refused .unexpected 5) ∧ Viable "f(1, \"x".toList := by
  have operator : Expression "f(1, \"x".toList (.word "f") "(1, \"x".toList :=
    .ofPrimary (@primary_word _ ['f'] ⟨by decide, List.all_eq_true.1 (by decide), by decide⟩ rfl)
  have first : Expression "1, \"x".toList (numberLiteral ['1']) ", \"x".toList :=
    .ofPrimary (.number ⟨rfl, by decide, List.all_eq_true.1 (by decide), rfl⟩)
  have noPrimary : ∀ e rest, ¬ Primary "\"x".toList e rest := by
    intro e rest h
    exact absurd (exists_primary_iff.1 ⟨e, rest, h⟩) (by decide)
  have stops : ProgramStops "f(1, \"x".toList .unexpected "\"x".toList :=
    .expression (@ExpressionStops.call _ [] _ _ _ _ operator rfl
      (.more first (@MoreStop.next [] _ _ _ rfl (.first (by decide) (.first noPrimary)))))
  have hroom : parse 8 "f(1, \"x" ≠ .error .tooDeep := fun hdeep =>
    program_ne_tooDeep (by decide) (parse_eq_tooDeep_iff_program.1 hdeep)
  have hparse : parse 8 "f(1, \"x" = .error (.refused .unexpected 5) := stops.parse hroom
  obtain ⟨d, hd, -, -, -, -, -, -, hviable, -⟩ := refusal_points_at_failure hparse
  cases hd
  exact ⟨hparse, hviable.2 (.inr ⟨rfl, by decide⟩)⟩

end CallScript.Grammar
