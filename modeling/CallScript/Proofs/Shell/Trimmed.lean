import CallScript.Proofs.Grammar.TrailingBlanks
import CallScript.Proofs.Report.Place
import CallScript.Proofs.Shell.Balance
import CallScript.Report.Reporter

/-!
# Entries without the blanks at their end

The shell reads an entry without the blanks at its end. If the entry leaves nothing open, it is read like
the whole text: to the same tree, or with the same refusal at the same offset. The error then lies at a
character that is no blank, so a report of it differs at most in blanks at the end of the line shown.
-/

namespace CallScript

open Text

namespace Text

theorem trimEnd_append_blanks (cs : List Char) {blanks : List Char}
    (h : isBlankText blanks = true) : trimEnd (cs ++ blanks) = trimEnd cs := by
  rw [isBlankText, ← List.all_reverse, List.all_eq_true] at h
  rw [trimEnd, List.reverse_append, List.dropWhile_append_of_pos h, trimEnd]

theorem trim_trimEnd {cs : List Char} (h : isBlankText cs = false) : trim (trimEnd cs) = trim cs := by
  obtain ⟨blanks, hblanks, hcs⟩ := exists_blanks_behind cs
  obtain ⟨front, hfront, hkept⟩ := exists_blanks (trimEnd cs)
  have hsome : skipBlanks (trimEnd cs) ≠ [] := by
    rw [Ne, skipBlanks_eq_nil_iff, isBlankText_trimEnd, h]
    decide
  obtain ⟨c, more, hcons⟩ := List.exists_cons_of_ne_nil hsome
  have hskip : skipBlanks cs = skipBlanks (trimEnd cs) ++ blanks := by
    conv => lhs; rw [hcs, hkept]
    rw [hcons, List.append_assoc, List.cons_append,
      Grammar.skipBlanks_blanks_cons hfront (isBlank_of_skipBlanks_eq_cons hcons)]
  rw [trim, trim, hskip, trimEnd_append_blanks _ hblanks]

end Text

namespace Grammar

variable {depth : Nat} {text : String}

/-- A program that leaves nothing open is refused at a character that is no blank. -/
theorem exists_cons_of_refused {cs rest : List Char} {refusal : Refusal}
    (hblank : isBlankText cs = false) (hopen : Shell.leavesOpen false 0 cs = false)
    (h : program depth cs = .error (.refused refusal rest)) :
    ∃ before c more, rest = c :: more ∧ isBlank c = false ∧ cs = before ++ rest := by
  obtain ⟨hstart, opened, -, ⟨before, hbefore⟩, -⟩ := refused_of_program h
  obtain ⟨c, more, hrest⟩ := List.exists_cons_of_ne_nil (ne_nil_of_refused h hblank hopen)
  refine ⟨before, c, more, hrest, ?_, hbefore.symm⟩
  rw [hrest] at hstart
  exact isBlank_of_skipBlanks_eq_cons hstart

theorem parse_ofList (depth : Nat) (cs : List Char) :
    parse depth (String.ofList cs) = match program depth cs with
      | .ok e => .ok e
      | .error .tooDeep => .error .tooDeep
      | .error (.refused refusal rest) => .error (.refused refusal (cs.length - rest.length)) := by
  cases hread : program depth cs with
  | ok e => simp only [parse, String.toList_ofList, hread]
  | error failure => cases failure <;> simp only [parse, String.toList_ofList, hread]

/-- Where an entry is refused, up to the blanks at its end. -/
theorem exists_of_parse_refused (hblank : isBlankText text.toList = false)
    (hdone : (Shell.preprocess text).2 = false) {refusal : Refusal} {offset : Nat}
    (h : parse depth (Shell.preprocess text).1 = .error (.refused refusal offset)) :
    ∃ before c more blanks, c ≠ '\n' ∧ isBlankText blanks = true ∧ offset = before.length ∧
      (Shell.preprocess text).1 = String.ofList (before ++ c :: more) ∧
      text = String.ofList (before ++ c :: (more ++ blanks)) := by
  obtain ⟨blanks, hblanks, hcs⟩ := exists_blanks_behind text.toList
  have hkept : isBlankText (trimEnd text.toList) = false := (isBlankText_trimEnd _).trans hblank
  rw [Shell.preprocess, parse_ofList] at h
  cases hread : program depth (trimEnd text.toList) with
  | ok e => simp [hread] at h
  | error failure =>
    cases failure with
    | tooDeep => simp [hread] at h
    | refused refusal' rest =>
      obtain ⟨before, c, more, rfl, hc, hbefore⟩ := exists_cons_of_refused hkept hdone hread
      simp only [hread, Except.error.injEq, ParseError.refused.injEq] at h
      refine ⟨before, c, more, blanks, ?_, hblanks, ?_, by rw [Shell.preprocess, hbefore], ?_⟩
      · rintro rfl
        exact absurd hc (by decide)
      · rw [← h.2, hbefore, List.length_append]
        omega
      · rw [← List.cons_append, ← List.append_assoc, ← hbefore, ← hcs, String.ofList_toList]

/-- An entry that leaves nothing open is read like the whole text. -/
theorem parse_preprocess (hblank : isBlankText text.toList = false)
    (hdone : (Shell.preprocess text).2 = false) (depth : Nat) :
    parse depth (Shell.preprocess text).1 = parse depth text := by
  obtain ⟨blanks, hblanks, hcs⟩ := exists_blanks_behind text.toList
  have hkept : isBlankText (trimEnd text.toList) = false := (isBlankText_trimEnd _).trans hblank
  have hopen : Shell.leavesOpen false 0 (trimEnd text.toList) = false := hdone
  have htext : text = String.ofList (trimEnd text.toList ++ blanks) := by
    rw [← hcs, String.ofList_toList]
  conv => rhs; rw [htext]
  rw [Shell.preprocess, parse_ofList, parse_ofList, program_append_blanks hblanks]
  cases hread : program depth (trimEnd text.toList) with
  | ok e => rfl
  | error failure =>
    cases failure with
    | tooDeep => rfl
    | refused refusal rest =>
      -- The rest begins with no blank, so the blanks behind it leave the offset as it is.
      obtain ⟨before, c, more, rfl, hc, -⟩ := exists_cons_of_refused hkept hopen hread
      simp only [List.cons_append, skipBlanks_cons hc, List.length_append, List.length_cons]
      congr 2
      omega

end Grammar

namespace Diagnostic

/-- A line with one of its characters marked, and the mark underneath. -/
def marked (style : Text.Style) (front : List Char) (c : Char) (behind : List Char) : String :=
  "  " ++ String.ofList front ++ style.alarm (String.ofList [c]) ++ String.ofList behind ++ "\n  " ++
    String.ofList (List.replicate front.length ' ') ++ style.alarm (String.ofList ['^'])

section

variable (refusal : Grammar.Refusal) (before more : List Char) {c : Char} (hc : c ≠ '\n')
include hc

theorem locate_ofRefusal :
    (ofRefusal (String.ofList (before ++ c :: more)) refusal before.length).locate =
      ⟨before.count '\n', (lastLine before).length,
        lastLine before ++ c :: more.takeWhile (· != '\n')⟩ := by
  rw [locate, ofRefusal, String.toList_ofList, placeOf_length,
    @List.takeWhile_cons_of_pos _ (· != '\n') c more (bne_iff_ne.2 hc)]

theorem excerpt_ofRefusal (style : Text.Style) :
    (ofRefusal (String.ofList (before ++ c :: more)) refusal before.length).excerpt style =
      marked style (lastLine before) c (more.takeWhile (· != '\n')) := by
  have hstop : (ofRefusal (String.ofList (before ++ c :: more)) refusal before.length).markEnd
      ⟨before.count '\n', (lastLine before).length,
        lastLine before ++ c :: more.takeWhile (· != '\n')⟩ = ((lastLine before).length + 1 : Nat) := by
    simp only [markEnd, ofRefusal, List.length_append, List.length_cons]
    omega
  have hmark : (((lastLine before).length + 1 : Nat) - (lastLine before).length - 1 : Int).toNat = 0 := by
    omega
  rw [excerpt, locate_ofRefusal refusal before more hc]
  simp only [hstop, upTo_append_cons, slice_append_cons, onward_append_cons, hmark,
    Int.toNat_natCast, List.replicate_zero]
  rfl

end

/-- Both errors are shown in the same line, at the same character; behind it, the line may go on with
more blanks for the first error than for the second. -/
structure SameSpot (d d' : Diagnostic) : Prop where
  lineOffset : d'.locate.lineOffset = d.locate.lineOffset
  column : d'.locate.column = d.locate.column
  excerpt : ∃ front c behind blanks, isBlankText blanks = true ∧ ∀ style,
    d.excerpt style = marked style front c (behind ++ blanks) ∧
      d'.excerpt style = marked style front c behind

/-- Blanks behind a text make the line in it longer by blanks, or not at all. -/
theorem exists_takeWhile_append_blanks {blanks : List Char} (hblanks : isBlankText blanks = true)
    (more : List Char) : ∃ shown, isBlankText shown = true ∧
      (more ++ blanks).takeWhile (· != '\n') = more.takeWhile (· != '\n') ++ shown := by
  induction more with
  | nil =>
    refine ⟨blanks.takeWhile (· != '\n'), ?_, rfl⟩
    rw [isBlankText, List.all_eq_true]
    exact fun c hc => isBlank_of_mem hblanks ((List.takeWhile_sublist _).mem hc)
  | cons c more ih =>
    by_cases hc : c = '\n'
    · exact ⟨[], rfl, by simp [hc]⟩
    · obtain ⟨shown, hshown, hmore⟩ := ih
      exact ⟨shown, hshown, by simp [hc, hmore]⟩

/-- A text and the same text with blanks behind it, refused at the same character. -/
theorem sameSpot_append_blanks (refusal : Grammar.Refusal) (before more : List Char) {c : Char}
    (hc : c ≠ '\n') {blanks : List Char} (hblanks : isBlankText blanks = true) :
    SameSpot (ofRefusal (String.ofList (before ++ c :: (more ++ blanks))) refusal before.length)
      (ofRefusal (String.ofList (before ++ c :: more)) refusal before.length) := by
  obtain ⟨shown, hshown, hline⟩ := exists_takeWhile_append_blanks hblanks more
  have hplace := locate_ofRefusal refusal before more hc
  have hplace' := locate_ofRefusal refusal before (more ++ blanks) hc
  refine ⟨by rw [hplace, hplace'], by rw [hplace, hplace'], lastLine before, c,
    more.takeWhile (· != '\n'), shown, hshown, fun style => ⟨?_, ?_⟩⟩
  · rw [excerpt_ofRefusal refusal before _ hc style, hline]
  · exact excerpt_ofRefusal refusal before more hc style

end Diagnostic

/-- The report of an error while that text is the only one being worked on, from its first line on. -/
def Reporter.reportIn (style : Text.Style) (path text : String) (d : Diagnostic) : String :=
  Reporter.report ⟨true, [⟨path, some text, some 1⟩], style⟩ d

/-- An error in a text and an error in another one that are reported alike: both with the same place or
both without one, and with the same kind and message. -/
structure SameComplaint (text text' : String) (d d' : Diagnostic) : Prop where
  kind : d'.kind = d.kind
  message : d'.message = d.message
  located : Reporter.isLocated d' = Reporter.isLocated d
  spot : Reporter.isLocated d = true → d.SameSpot d'
  report : Reporter.isLocated d = false → ∀ style path,
    Reporter.reportIn style path text' d' = Reporter.reportIn style path text d

section

variable {text : String} (hblank : isBlankText text.toList = false)
include hblank

theorem traceEntry_preprocess (path : String) (line : Option Int) :
    Reporter.traceEntry ⟨path, some (Shell.preprocess text).1, line⟩ =
      Reporter.traceEntry ⟨path, some text, line⟩ := by
  simp only [Reporter.traceEntry, Shell.preprocess, String.toList_ofList, trim_trimEnd hblank]

theorem traceList_preprocess (fatal : Bool) (style : Text.Style) (path : String) (line : Option Int) :
    Reporter.traceList ⟨fatal, [⟨path, some (Shell.preprocess text).1, line⟩], style⟩ =
      Reporter.traceList ⟨fatal, [⟨path, some text, line⟩], style⟩ := by
  have hentries : [⟨path, some (Shell.preprocess text).1, line⟩].filterMap Reporter.traceEntry =
      [⟨path, some text, line⟩].filterMap Reporter.traceEntry := by
    rw [List.filterMap_cons, traceEntry_preprocess hblank]
    rfl
  rw [Reporter.traceList, Reporter.traceList, hentries]

/-- An error without a place is reported alike for a text and for the text without the blanks at its
end. -/
theorem sameComplaint_of_not_located {d : Diagnostic} (hd : Reporter.isLocated d = false) :
    SameComplaint text (Shell.preprocess text).1 d d := by
  refine ⟨rfl, rfl, rfl, fun h => absurd h (by simp [hd]), fun _ style path => ?_⟩
  simp only [Reporter.reportIn, Reporter.report, hd, Bool.false_eq_true, if_false,
    traceList_preprocess hblank]

/-- The text is refused where it would be refused without the blanks at its end. -/
theorem sameComplaint_of_refused (hdone : (Shell.preprocess text).2 = false) {depth offset : Nat}
    {refusal : Grammar.Refusal}
    (h : Grammar.parse depth text = .error (.refused refusal offset)) :
    SameComplaint text (Shell.preprocess text).1 (.ofRefusal text refusal offset)
      (.ofRefusal (Shell.preprocess text).1 refusal offset) := by
  rw [← Grammar.parse_preprocess hblank hdone] at h
  obtain ⟨before, c, more, blanks, hc, hblanks, rfl, hkept, htext⟩ :=
    Grammar.exists_of_parse_refused hblank hdone h
  have hlocated : ∀ more, Reporter.isLocated
      (.ofRefusal (String.ofList (before ++ c :: more)) refusal before.length) = true := by
    intro more
    simp [Reporter.isLocated, Diagnostic.ofRefusal]
  rw [hkept, htext]
  refine ⟨rfl, rfl, by rw [hlocated, hlocated], fun _ => ?_, fun h => ?_⟩
  · exact Diagnostic.sameSpot_append_blanks refusal before more hc hblanks
  · rw [hlocated] at h
    cases h

end

end CallScript
