import CallScript.Proofs.Grammar.Viable
import CallScript.Proofs.Report.Place
import CallScript.Proofs.Shell.AtRest
import CallScript.Proofs.Shell.Console
import Mathlib.Data.List.Induction

/-!
# Where errors in typed lines are located

A syntax error in an entry is reported with the number of the line that holds the refused character, out
of all lines that were entered, with the column of the character in this line, and with the line itself.
An entry is made of the lines that wait when its last line is entered. Lines are trimmed, so the text of
an entry is these lines and the line feeds between them, and the lines of the text are those that were
typed. Blank lines and commands are not entered, and neither they nor entries that fail move anything.
-/

namespace CallScript.Shell

open Text

variable {limits : Limits} {style : Text.Style} {shell : Shell} {lines typed : List (List Char)}

def Command.entered : Command → List (List Char)
  | entry line => [line]
  | _ => []

/-- The lines that are entered out of those given to a shell, trimmed. -/
def entered (inputs : List String) : List (List Char) :=
  inputs.flatMap fun line => (Command.ofLine line.toList).entered

/-- What lines are like that are entered: not blank, without blanks at their end, and without line
feeds. -/
structure Entered (line : List Char) : Prop where
  some : line ≠ []
  last : line.getLast?.any isBlank = false
  single : '\n' ∉ line

theorem ofLine_eq_entry {cs line : List Char} (h : Command.ofLine cs = .entry line) :
    line = trim cs ∧ line ≠ [] := by
  rw [Command.ofLine] at h
  split at h
  · cases h
  · cases h
  · next rest hrest =>
    cases h
    exact ⟨hrest.symm, List.cons_ne_nil _ _⟩
  · next hne _ _ =>
    rw [Command.ofName] at h
    repeat' split at h
    all_goals cases h
    exact ⟨rfl, hne⟩

theorem trim_sublist (cs : List Char) : (trim cs).Sublist cs := by
  obtain ⟨blanks, -, hblanks⟩ := exists_blanks_behind (skipBlanks cs)
  have hkept : (trim cs).Sublist (skipBlanks cs) := by
    conv => rhs; rw [hblanks]
    exact List.sublist_append_left _ _
  exact hkept.trans (List.dropWhile_sublist _)

theorem Entered.ofLine {cs line : List Char} (hcs : '\n' ∉ cs)
    (h : Command.ofLine cs = .entry line) : Entered line := by
  obtain ⟨rfl, hne⟩ := ofLine_eq_entry h
  exact ⟨hne, (withoutBlanksBehind_trimEnd _).last, fun hmem => hcs ((trim_sublist cs).subset hmem)⟩

theorem entered_cons (line : String) (rest : List String) :
    entered (line :: rest) = (Command.ofLine line.toList).entered ++ entered rest :=
  List.flatMap_cons

theorem forall_entered {inputs : List String} (h : ∀ line ∈ inputs, '\n' ∉ line.toList) :
    ∀ line ∈ entered inputs, Entered line := by
  intro line hline
  obtain ⟨input, hinput, hentered⟩ := List.mem_flatMap.1 hline
  cases hcommand : Command.ofLine input.toList with
  | entry line' =>
    rw [hcommand] at hentered
    obtain rfl := List.mem_singleton.1 hentered
    exact .ofLine (h input hinput) hcommand
  | _ =>
    rw [hcommand] at hentered
    cases hentered

/-- The text that lines make up. -/
def joined (lines : List (List Char)) : List Char :=
  ['\n'].intercalate lines

/-- What is pending while lines wait for more. -/
def ended (lines : List (List Char)) : List Char :=
  lines.flatMap (· ++ ['\n'])

theorem joined_append_line (lines : List (List Char)) (line : List Char) :
    joined (lines ++ [line]) = ended lines ++ line := by
  induction lines with
  | nil => exact List.intercalate_singleton
  | cons first rest ih =>
    obtain ⟨next, more, hmore⟩ := List.exists_cons_of_ne_nil (List.concat_ne_nil line rest)
    rw [joined, hmore] at ih
    rw [joined, List.cons_append, hmore, List.intercalate_cons_cons, ih, ended, ended,
      List.flatMap_cons, List.append_assoc _ _ line]

theorem ended_append_line (lines : List (List Char)) (line : List Char) :
    ended (lines ++ [line]) = joined (lines ++ [line]) ++ ['\n'] := by
  rw [joined_append_line, ended, List.flatMap_append, List.flatMap_singleton, List.append_assoc]
  rfl

theorem ended_eq_nil_iff : ended lines = [] ↔ lines = [] := by
  constructor
  · intro h
    cases lines with
    | nil => rfl
    | cons line rest => simp [ended] at h
  · rintro rfl
    rfl

/-- The lines of an entry are those that it was made of. -/
theorem lines_joined (hne : lines ≠ []) (h : ∀ line ∈ lines, Entered line) :
    Text.lines (joined lines) = lines :=
  List.splitOn_intercalate '\n' (fun line hline => (h line hline).single) hne

section

variable {line : List Char} (hline : Entered line) (front : List Char)
include hline

/-- Nothing is trimmed off behind a line that was entered. -/
theorem Entered.trimEnd_append : trimEnd (front ++ line) = front ++ line := by
  obtain ⟨c, more, hreverse⟩ := List.exists_cons_of_ne_nil (List.reverse_ne_nil_iff.2 hline.some)
  have hc : isBlank c = false := by
    have hlast := hline.last
    rw [← List.head?_reverse, hreverse] at hlast
    simpa using hlast
  have hskip := skipBlanks_cons hc (more ++ front.reverse)
  rw [← List.cons_append, ← hreverse, ← List.reverse_append] at hskip
  rw [trimEnd, ← skipBlanks, hskip, List.reverse_reverse]

theorem Entered.not_blank : isBlankText (front ++ line) = false := by
  rw [Bool.eq_false_iff]
  intro hblank
  have htrim := hline.trimEnd_append front
  rw [isBlankText, ← List.all_reverse] at hblank
  rw [trimEnd, ← skipBlanks, skipBlanks_eq_nil_iff.2 hblank] at htrim
  exact hline.some (List.append_eq_nil_iff.1 htrim.symm).2

end

theorem Entered.preprocess {line : String} (hline : Entered line.toList) (pending : String) :
    preprocess (pending ++ line) = (pending ++ line, leavesOpen false 0 (pending ++ line).toList) := by
  have hkept : trimEnd (pending ++ line).toList = (pending ++ line).toList := by
    rw [String.toList_append, hline.trimEnd_append]
  rw [Shell.preprocess, hkept, String.ofList_toList]

/-- The lines that wait after a line, if some waited before it: all of them wait on, or none does. -/
def waitOn (waiting : List (List Char)) (line : List Char) : List (List Char) :=
  if leavesOpen false 0 (joined (waiting ++ [line])) then waiting ++ [line] else []

/-- The lines of the entry that is unfinished once those lines were entered. -/
def waiting (typed : List (List Char)) : List (List Char) :=
  typed.foldl waitOn []

theorem waiting_append_line (typed : List (List Char)) (line : List Char) :
    waiting (typed ++ [line]) = waitOn (waiting typed) line := by
  rw [waiting, List.foldl_append]
  rfl

/-- The last lines wait, those of a finished entry do not. -/
theorem exists_append_waiting (typed : List (List Char)) :
    ∃ earlier, typed = earlier ++ waiting typed := by
  induction typed using List.reverseRecOn with
  | nil => exact ⟨[], rfl⟩
  | append_singleton typed line ih =>
    obtain ⟨earlier, hearlier⟩ := ih
    rw [waiting_append_line, waitOn]
    split
    · refine ⟨earlier, ?_⟩
      conv => lhs; rw [hearlier, List.append_assoc]
    · exact ⟨typed ++ [line], (List.append_nil _).symm⟩

/-- The number of the first line of an entry that goes on with the next line. -/
def entryLine (shell : Shell) : Nat :=
  if shell.pending.isEmpty then shell.lineNumber + 1 else shell.startLine

/-- What comes of a line that is entered. Nothing of the entry is trimmed off, and the entry is not
blank. -/
theorem Entered.enter_eq {line : String} (hline : Entered line.toList) (shell : Shell) :
    enter limits line shell =
      if leavesOpen false 0 (shell.pending ++ line).toList then
        .ok () ⟨shell.desk, shell.pending ++ line ++ "\n", shell.lineNumber + 1, shell.entryLine,
          .continued⟩
      else underGuard (runEntry limits (shell.pending ++ line) shell.entryLine)
        ⟨shell.desk, "", shell.lineNumber + 1, shell.entryLine, .first⟩ := by
  have hblank : isBlankText (shell.pending ++ line).toList = false := by
    rw [String.toList_append, hline.not_blank]
  rw [Shell.enter_eq, hline.preprocess]
  simp only [hblank, Bool.false_eq_true, if_false]
  rfl

/-- What a shell is like once those lines were entered. -/
structure Follows (style : Text.Style) (typed : List (List Char)) (shell : Shell) : Prop where
  console : shell.desk.AtConsole style
  counted : shell.lineNumber = typed.length
  pending : shell.pending.toList = ended (waiting typed)
  begun : waiting typed ≠ [] → shell.startLine + (waiting typed).length = typed.length + 1

theorem Follows.withDesk (h : shell.Follows style typed) {desk : Desk} (hdesk : desk.AtConsole style) :
    Follows style typed { shell with desk } :=
  ⟨hdesk, h.counted, h.pending, h.begun⟩

theorem Follows.entryLine (h : shell.Follows style typed) :
    shell.entryLine + (waiting typed).length = typed.length + 1 := by
  have hempty : shell.pending.isEmpty = true ↔ waiting typed = [] := by
    rw [String.isEmpty_iff, ← String.toList_eq_nil_iff, h.pending, ended_eq_nil_iff]
  rw [Shell.entryLine]
  split
  · next hnone =>
    rw [hempty.1 hnone, h.counted]
    rfl
  · next hsome => exact h.begun fun hnil => hsome (hempty.2 hnil)

theorem Follows.exists_earlier (h : shell.Follows style typed) :
    ∃ earlier, typed = earlier ++ waiting typed ∧ shell.entryLine = earlier.length + 1 := by
  obtain ⟨earlier, hearlier⟩ := exists_append_waiting typed
  have hbegun := h.entryLine
  have hlength := congrArg List.length hearlier
  rw [List.length_append] at hlength
  exact ⟨earlier, hearlier, by omega⟩

/-- The entry that a line makes is the text of the lines that waited, and of this one. -/
theorem Follows.entry_eq (h : shell.Follows style typed) (line : List Char) :
    shell.pending ++ String.ofList line = String.ofList (joined (waiting typed ++ [line])) := by
  rw [← String.toList_inj, String.toList_append, h.pending, String.toList_ofList, String.toList_ofList,
    joined_append_line]

theorem Follows.preprocess (h : shell.Follows style typed) {line : List Char} (hline : Entered line) :
    preprocess (shell.pending ++ String.ofList line) =
      (String.ofList (joined (waiting typed ++ [line])),
        leavesOpen false 0 (joined (waiting typed ++ [line]))) := by
  rw [← String.toList_ofList (l := line)] at hline
  rw [hline.preprocess, h.entry_eq, String.toList_ofList]

theorem Follows.enter_eq (h : shell.Follows style typed) {line : List Char} (hline : Entered line) :
    enter limits (String.ofList line) shell =
      let text := joined (waiting typed ++ [line])
      if leavesOpen false 0 text then
        .ok () ⟨shell.desk, String.ofList text ++ "\n", shell.lineNumber + 1, shell.entryLine, .continued⟩
      else underGuard (runEntry limits (String.ofList text) shell.entryLine)
        ⟨shell.desk, "", shell.lineNumber + 1, shell.entryLine, .first⟩ := by
  rw [← String.toList_ofList (l := line)] at hline
  rw [hline.enter_eq, h.entry_eq, String.toList_ofList]

theorem stateAfter_underGuard (task : Job Unit) (shell : Shell) :
    stateAfter (underGuard task) shell =
      { shell with desk := stateAfter (Job.guarded task) shell.desk } := by
  simp only [stateAfter, underGuard, atDesk, bind, EStateM.bind]
  cases Job.guarded task shell.desk <;> rfl

theorem stateAfter_bind_pure {α β : Type} (step : Step α) (b : β) (shell : Shell) :
    stateAfter (step >>= fun _ => pure b) shell = stateAfter step shell := by
  simp only [stateAfter, bind, EStateM.bind]
  cases step shell <;> rfl

theorem Follows.underGuard (h : shell.Follows style typed) {task : Job Unit}
    (htask : Maintains (Desk.StaysAtConsole style) task) :
    Follows style typed (stateAfter (underGuard task) shell) := by
  rw [stateAfter_underGuard]
  exact h.withDesk (guarded_staysAtConsole htask _ h.console)

theorem Follows.note (h : shell.Follows style typed) (event : Event) :
    Follows style typed (stateAfter (atDesk (Job.note event)) shell) :=
  h.withDesk (h.console.same rfl rfl)

theorem Follows.enter (h : shell.Follows style typed) {line : List Char} (hline : Entered line) :
    Follows style (typed ++ [line]) (stateAfter (enter limits (String.ofList line)) shell) := by
  have hbegun := h.entryLine
  have hcounted : shell.lineNumber + 1 = (typed ++ [line]).length := by
    rw [h.counted, List.length_append, List.length_singleton]
  have hwaiting := waiting_append_line typed line
  have henter := @Follows.enter_eq limits _ _ _ h _ hline
  rw [waitOn] at hwaiting
  cases hopen : leavesOpen false 0 (joined (waiting typed ++ [line])) with
  | true =>
    rw [if_pos hopen] at hwaiting
    simp only [hopen, if_true] at henter
    rw [stateAfter_of_ok henter]
    refine ⟨h.console, hcounted, ?_, fun _ => ?_⟩
    · rw [hwaiting, ended_append_line, String.toList_append, String.toList_ofList]
      rfl
    · rw [hwaiting, List.length_append, List.length_append, List.length_singleton]
      dsimp only
      omega
  | false =>
    rw [hopen, if_neg Bool.false_ne_true] at hwaiting
    simp only [hopen, Bool.false_eq_true, if_false] at henter
    -- Nothing waits any more when the work on the entry begins, and the work keeps it so.
    have hbefore : Follows style (typed ++ [line])
        ⟨shell.desk, "", shell.lineNumber + 1, shell.entryLine, .first⟩ := by
      refine ⟨h.console, hcounted, ?_, fun hsome => absurd hwaiting hsome⟩
      rw [hwaiting]
      rfl
    have hafter := hbefore.underGuard (runEntry_staysAtConsole limits
      (String.ofList (joined (waiting typed ++ [line]))) shell.entryLine)
    rwa [stateAfter, ← henter] at hafter

theorem Follows.obey (h : shell.Follows style typed) {command : Command}
    (hcommand : ∀ line ∈ command.entered, Entered line) :
    Follows style (typed ++ command.entered) (stateAfter (obey limits command) shell) := by
  have hsame := (List.append_nil typed).symm ▸ h
  cases command with
  | blank => exact hsame
  | ast text =>
    have htree := hsame.underGuard
      (showTree_staysAtConsole limits (String.ofList text) (shell.lineNumber + 1))
    exact (stateAfter_bind_pure _ Reply.done shell).symm ▸ htree
  | help => exact (stateAfter_bind_pure _ Reply.done shell).symm ▸ hsame.note _
  | exit => exact hsame
  | endOfInput => exact (stateAfter_bind_pure _ Reply.quit shell).symm ▸ hsame.note _
  | entry line =>
    have henter := @Follows.enter limits _ _ _ h _ (hcommand line (List.mem_singleton_self line))
    exact (stateAfter_bind_pure _ Reply.done shell).symm ▸ henter

theorem Follows.giveAll {inputs : List String} {shell' : Shell} (h : shell.Follows style typed)
    (hinputs : ∀ line ∈ entered inputs, Entered line)
    (hgiven : giveAll limits (inputs.map .line) shell = .ok () shell') :
    Follows style (typed ++ entered inputs) shell' := by
  induction inputs generalizing shell typed with
  | nil =>
    cases hgiven
    exact (List.append_nil typed).symm ▸ h
  | cons input rest ih =>
    rw [entered_cons] at hinputs ⊢
    obtain ⟨hinput, hrest⟩ := List.forall_mem_append.1 hinputs
    have hobey : Follows style (typed ++ (Command.ofLine input.toList).entered)
        (stateAfter ((Input.line input).give limits) shell) := h.obey hinput
    simp only [List.map_cons, Shell.giveAll, bind, EStateM.bind] at hgiven
    cases hline : (Input.line input).give limits shell with
    | ok reply next =>
      rw [hline] at hgiven
      rw [stateAfter_of_ok hline] at hobey
      rw [← List.append_assoc]
      exact ih hobey hrest hgiven
    | error raised next =>
      rw [hline] at hgiven
      cases hgiven

theorem follows_ofDesk (forms : Registry) (fatal : Bool) (style : Text.Style) (writes verbose : Bool)
    (w : World) :
    Follows style []
      (ofDesk (Session.start Session.console true forms (.fresh fatal style) writes verbose w)) :=
  ⟨atConsole_start forms fatal style writes verbose w, rfl, rfl, fun hsome => absurd rfl hsome⟩

/-- The report of a syntax error at a character of a line with that number. -/
def reportAt (style : Text.Style) (number : Nat) (message : String) (front : List Char) (c : Char)
    (behind : List Char) : String :=
  style.bold ("<in>:" ++ toString number ++ ":" ++ toString (front.length + 1) ++ ": ") ++
    style.alarm "error: " ++ "SyntaxError" ++ ": " ++ message ++ "\n" ++
    (Diagnostic.marked style front c behind ++ "\n")

theorem report_ofRefusal {r : Reporter} {text : String} {first : Nat} (hfirst : 0 < first)
    (htraces : r.traces = [⟨Session.console, text, (first : Int)⟩]) (refusal : Grammar.Refusal)
    (before more : List Char) {c : Char} (hc : c ≠ '\n') :
    r.report (.ofRefusal (String.ofList (before ++ c :: more)) refusal before.length) =
      reportAt r.style (first + before.count '\n') refusal.message (Diagnostic.lastLine before) c
        (more.takeWhile (· != '\n')) := by
  have hlocated : Reporter.isLocated
      (.ofRefusal (String.ofList (before ++ c :: more)) refusal before.length) = true := by
    simp [Reporter.isLocated, Diagnostic.ofRefusal]
  have hnumber : Reporter.lineBelow (some (first : Int)) (before.count '\n') =
      (first + before.count '\n' : Nat) := by
    rw [Reporter.lineBelow]
    · rw [Int.natCast_add]
    · intro hzero
      omega
  have hplain : (Diagnostic.ofRefusal (String.ofList (before ++ c :: more)) refusal
      before.length).internal = false := rfl
  rw [Reporter.report, hlocated, Diagnostic.excerpt_ofRefusal refusal before more hc]
  simp only [if_true, Reporter.placeText, htraces, Diagnostic.locate_ofRefusal refusal before more hc,
    hnumber, hplain, Bool.false_eq_true, if_false, String.append_empty]
  rfl

theorem runEntry_of_refused {desk : Desk} {text : String} {refusal : Grammar.Refusal} {offset : Nat}
    (h : Grammar.parse limits.depth text = .error (.refused refusal offset)) (line : Nat) :
    runEntry limits text line desk =
      .error (.complaint (.ofRefusal text refusal offset)) (desk.working text line) := by
  have hadd := @Session.add_eq limits desk text line
  simp only [h] at hadd
  exact Job.bind_error hadd

/-- The line that is entered finishes an entry, and an error stops the work on it. -/
def StoppedBy (limits : Limits) (line : List Char) (d : Diagnostic) (shell : Shell) : Prop :=
  (preprocess (shell.pending ++ String.ofList line)).2 = false ∧
    ∃ first desk', runEntry limits (preprocess (shell.pending ++ String.ofList line)).1 first
      shell.desk = .error (.complaint d) desk'

theorem Follows.refused (h : shell.Follows style typed) {line : List Char} (hline : Entered line)
    {d : Diagnostic} (hstopped : shell.StoppedBy limits line d)
    (hlocated : Reporter.isLocated d = true) :
    ∃ before c more refusal, c ≠ '\n' ∧ joined (waiting typed ++ [line]) = before ++ c :: more ∧
      d = .ofRefusal (String.ofList (before ++ c :: more)) refusal before.length ∧
      Grammar.parse limits.depth (String.ofList (before ++ c :: more)) =
        .error (.refused refusal before.length) ∧
      leavesOpen false 0 (before ++ c :: more) = false := by
  obtain ⟨hdone, first, desk', hrun⟩ := hstopped
  obtain ⟨refusal, offset, hparse, hd, -⟩ := refused_of_runEntry hrun hlocated
  have hblank : isBlankText (shell.pending ++ String.ofList line).toList = false := by
    rw [String.toList_append, String.toList_ofList]
    exact hline.not_blank _
  obtain ⟨before, c, more, -, hc, -, rfl, hkept, -⟩ :=
    Grammar.exists_of_parse_refused hblank hdone hparse
  rw [hkept] at hparse hd
  rw [h.preprocess hline] at hdone hkept
  have htext := String.ofList_injective hkept
  exact ⟨before, c, more, refusal, hc, htext, hd, hparse, htext ▸ hdone⟩

/-- The line that finishes an entry which is refused is answered with the report, and the shell goes
on. -/
theorem Follows.onLine_refused (h : shell.Follows style typed)
    (hforgiving : shell.desk.session.reporter.fatal = false) {line : String} {last : List Char}
    (hentry : Command.ofLine line.toList = .entry last) (hlast : Entered last) {before more : List Char}
    {c : Char} (hc : c ≠ '\n') {refusal : Grammar.Refusal}
    (htext : joined (waiting typed ++ [last]) = before ++ c :: more)
    (hdone : leavesOpen false 0 (before ++ c :: more) = false)
    (hparse : Grammar.parse limits.depth (String.ofList (before ++ c :: more)) =
      .error (.refused refusal before.length)) :
    ∃ shell', onLine limits line shell = .ok .done shell' ∧
      shell'.desk.world.events = shell.desk.world.events.push (.report (reportAt style
        (shell.entryLine + before.count '\n') refusal.message (Diagnostic.lastLine before) c
        (more.takeWhile (· != '\n')))) := by
  have hrun := @runEntry_of_refused limits shell.desk _ _ _ hparse shell.entryLine
  have hguarded := Job.guarded_suppressed hrun hforgiving
  obtain ⟨earlier, -, hfirst⟩ := h.exists_earlier
  have hreport := report_ofRefusal (hfirst ▸ Nat.succ_pos _)
    (h.console.traces_working (String.ofList (before ++ c :: more)) shell.entryLine) refusal before more hc
  have henter := @Follows.enter_eq limits _ _ _ h _ hlast
  simp only [htext, hdone, Bool.false_eq_true, if_false] at henter
  have hstyle : (shell.desk.working (String.ofList (before ++ c :: more))
      shell.entryLine).session.reporter.style = style := h.console.style
  rw [hstyle] at hreport
  refine ⟨⟨((shell.desk.working (String.ofList (before ++ c :: more)) shell.entryLine).reporting
    (.ofRefusal (String.ofList (before ++ c :: more)) refusal before.length)).idle, "",
    shell.lineNumber + 1, shell.entryLine, .first⟩, ?_, ?_⟩
  · simp only [onLine, hentry, Shell.obey, bind, EStateM.bind, henter, Shell.underGuard, atDesk,
      hguarded]
    rfl
  · rw [← hreport]
    rfl

/-- The character at which a text of several lines is cut, by the lines. -/
theorem line_at_cut {before more : List Char} {c : Char} (hc : c ≠ '\n') (hne : lines ≠ [])
    (hlines : ∀ line ∈ lines, Entered line) (htext : joined lines = before ++ c :: more) :
    lines[before.count '\n']? =
        some (Diagnostic.lastLine before ++ c :: more.takeWhile (· != '\n')) ∧
      lineStart lines (before.count '\n') + (Diagnostic.lastLine before).length = before.length := by
  have hcut := lines_at_cut before (c :: more)
  rw [← htext, lines_joined hne hlines,
    @List.takeWhile_cons_of_pos _ (· != '\n') c more (bne_iff_ne.2 hc)] at hcut
  exact hcut

/-- Lines are given to a new shell, and the next line finishes an entry that is stopped by an error with
a place. The entry is made of the last lines that were entered, and the error is at a character in one of
them, which is not the line feed behind it. The report gives the number of this line among all lines that
were entered, the column of the character in it, counted from one, and shows the line with this character
marked. -/
theorem located_errors_are_at_typed_lines (limits : Limits) (forms : Registry) (fatal : Bool)
    (style : Text.Style) (writes verbose : Bool) (w : World) {inputs : List String} {shell : Shell}
    {line : String} {last : List Char} {d : Diagnostic}
    (hinputs : ∀ input ∈ inputs, '\n' ∉ input.toList) (hline : '\n' ∉ line.toList)
    (hgiven : giveAll limits (inputs.map .line)
      (ofDesk (Session.start Session.console true forms (.fresh fatal style) writes verbose w)) =
        .ok () shell)
    (hentry : Command.ofLine line.toList = .entry last)
    (hstopped : shell.StoppedBy limits last d) (hlocated : Reporter.isLocated d = true) :
    let typed := entered (inputs ++ [line])
    let entry := waiting (entered inputs) ++ [last]
    ∃ earlier number front c behind shell',
      typed = earlier ++ entry ∧ d.source.toList = joined entry ∧
      typed[earlier.length + number]? = some (front ++ c :: behind) ∧
      d.start = lineStart entry number + front.length ∧
      d.source.toList[d.start.toNat]? = some c ∧
      onLine limits line shell = .ok .done shell' ∧
      shell'.desk.world.events = shell.desk.world.events.push (.report
        (reportAt style (earlier.length + number + 1) d.message front c behind)) := by
  have hstart := follows_ofDesk forms fatal style writes verbose w
  have hfollows := hstart.giveAll (forall_entered hinputs) hgiven
  rw [List.nil_append] at hfollows
  have hrest := @AtRest.giveAll limits _ _ (atRest_ofDesk (atRest_start forms fatal style writes verbose w))
    (inputs.map .line)
  rw [hgiven] at hrest
  have hlast := Entered.ofLine hline hentry
  obtain ⟨before, c, more, refusal, hc, htext, rfl, hparse, hdone⟩ :=
    hfollows.refused hlast hstopped hlocated
  obtain ⟨shell', honLine, hevents⟩ :=
    hfollows.onLine_refused hrest.desk.forgiving hentry hlast hc htext hdone hparse
  obtain ⟨earlier, hearlier, hfirst⟩ := hfollows.exists_earlier
  have htyped : entered (inputs ++ [line]) = earlier ++ (waiting (entered inputs) ++ [last]) := by
    conv => rhs; rw [← List.append_assoc, ← hearlier]
    rw [entered, List.flatMap_append, List.flatMap_singleton, hentry]
    rfl
  have hlines : ∀ line ∈ waiting (entered inputs) ++ [last], Entered line := by
    intro line hmem
    rcases List.mem_append.1 hmem with hwaiting | hmem
    · exact forall_entered hinputs line (hearlier ▸ List.mem_append_right _ hwaiting)
    · exact List.mem_singleton.1 hmem ▸ hlast
  obtain ⟨hshown, hplace⟩ := line_at_cut hc (List.concat_ne_nil _ _) hlines htext
  refine ⟨earlier, before.count '\n', Diagnostic.lastLine before, c, more.takeWhile (· != '\n'), shell',
    htyped, ?_, ?_, ?_, ?_, honLine, ?_⟩
  · rw [htext]
    exact String.toList_ofList
  · rw [htyped, List.getElem?_append_right (Nat.le_add_right _ _), Nat.add_sub_cancel_left, hshown]
  · exact congrArg Int.ofNat hplace.symm
  · show (String.ofList (before ++ c :: more)).toList[before.length]? = some c
    rw [String.toList_ofList, List.getElem?_append_right (Nat.le_refl _), Nat.sub_self]
    rfl
  · rw [hevents, hfirst, Nat.add_right_comm]
    rfl

def freshShell : Shell :=
  ofDesk (Session.start Session.console true .standard (.fresh false .plain) true false .empty)

def callBegun : Shell :=
  { freshShell with
    desk := freshShell.desk.inWorld (freshShell.desk.world.withEvent (.answer helpText))
    pending := "f(1,\n", lineNumber := 1, startLine := 1, prompt := .continued }

/-- Two arguments that nothing separates, on the second line of a call. The help and the blank line in
between are not counted. -/
theorem located_errors_are_at_typed_lines_separator :
    giveAll .standard (["f(1,", "?", ""].map .line) freshShell = .ok () callBegun ∧
      ∃ d, callBegun.StoppedBy .standard "2 3)".toList d ∧ Reporter.isLocated d = true ∧
        d.message = "Expected ',' or ')'" ∧ d.start = 7 ∧
        ∃ earlier number front c behind shell',
          entered ["f(1,", "?", "", " 2 3)"] = earlier ++ ["f(1,".toList, "2 3)".toList] ∧
          d.source.toList = joined ["f(1,".toList, "2 3)".toList] ∧
          (entered ["f(1,", "?", "", " 2 3)"])[earlier.length + number]? = some (front ++ c :: behind) ∧
          d.start = lineStart ["f(1,".toList, "2 3)".toList] number + front.length ∧
          d.source.toList[d.start.toNat]? = some c ∧
          onLine .standard " 2 3)" callBegun = .ok .done shell' ∧
          shell'.desk.world.events = callBegun.desk.world.events.push (.report
            (reportAt .plain (earlier.length + number + 1) d.message front c behind)) := by
  have operator : Grammar.Expression "f(1,\n2 3)".toList (.word "f") "(1,\n2 3)".toList :=
    .ofPrimary (@Grammar.primary_word _ ['f'] ⟨by decide, List.all_eq_true.1 (by decide), by decide⟩ rfl)
  have first : Grammar.Expression "1,\n2 3)".toList (Grammar.numberLiteral ['1']) ",\n2 3)".toList :=
    .ofPrimary (.number ⟨rfl, by decide, List.all_eq_true.1 (by decide), rfl⟩)
  have second : Grammar.Expression "\n2 3)".toList (Grammar.numberLiteral ['2']) " 3)".toList :=
    @Grammar.Expression.primary ['\n'] _ _ _ rfl
      (.number ⟨rfl, by decide, List.all_eq_true.1 (by decide), rfl⟩)
  have stops : Grammar.ProgramStops "f(1,\n2 3)".toList .expectedSeparator "3)".toList :=
    .expression (@Grammar.ExpressionStops.call _ [] _ _ _ _ operator rfl (.more first
      (@Grammar.MoreStop.next [] _ _ _ rfl (.more second
        (@Grammar.MoreStop.separator " 3)".toList (by decide) (by decide) (by decide))))))
  have hroom : Grammar.parse 400 "f(1,\n2 3)" ≠ .error .tooDeep := fun hdeep =>
    Grammar.program_ne_tooDeep (by decide) (Grammar.parse_eq_tooDeep_iff_program.1 hdeep)
  have hparse : Grammar.parse Limits.standard.depth "f(1,\n2 3)" =
      .error (.refused .expectedSeparator 7) := stops.parse hroom
  have hgiven : giveAll .standard (["f(1,", "?", ""].map .line) freshShell = .ok () callBegun := rfl
  have hstopped : callBegun.StoppedBy .standard "2 3)".toList
      (.ofRefusal "f(1,\n2 3)" .expectedSeparator 7) :=
    ⟨by decide, 1, _, runEntry_of_refused hparse 1⟩
  exact ⟨hgiven, _, hstopped, rfl, rfl, rfl,
    located_errors_are_at_typed_lines .standard .standard false .plain true false .empty
      (by decide) (by decide) hgiven rfl hstopped rfl⟩

end CallScript.Shell
