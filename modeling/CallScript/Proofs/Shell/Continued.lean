import CallScript.Proofs.Shell.Lines
import CallScript.Proofs.Shell.Located

/-!
# Lines behind an unfinished entry

A shell that waits for the rest of an entry still looks for commands first. A line that is none of them
goes on with the entry, which then waits for more or is worked on. A line that is a command, or begins
like one, is obeyed, and the entry waits as before.
-/

namespace CallScript.Shell

open Text

variable {limits : Limits} {shell : Shell} {line : String} {cs : List Char}

def commandNames : List String :=
  ["ast", "help", "exit", "EOF"]

/-- The line asks for help by a mark, or the run of name characters in front of it is the name of a
command. -/
def IsCommand (cs : List Char) : Prop :=
  cs.head? = some '?' ∨ String.ofList (cs.takeWhile isNameChar) ∈ commandNames

instance (cs : List Char) : Decidable (IsCommand cs) :=
  inferInstanceAs (Decidable (_ ∨ _))

namespace Command

theorem lineCount_ofName (h : String.ofList (cs.takeWhile isNameChar) ∈ commandNames) :
    (ofName cs).lineCount = 0 := by
  simp only [commandNames, List.mem_cons, List.not_mem_nil, or_false] at h
  rcases h with h | h | h | h <;> simp [ofName, h, lineCount]

theorem ofName_eq_entry (h : String.ofList (cs.takeWhile isNameChar) ∉ commandNames) :
    ofName cs = entry cs := by
  simp only [commandNames, List.mem_cons, List.not_mem_nil, or_false, not_or] at h
  obtain ⟨hast, hhelp, hexit, hend⟩ := h
  simp only [ofName, if_neg hast, if_neg hhelp, if_neg hexit, if_neg hend]

theorem lineCount_ofLine (htrim : trim cs = cs) (h : IsCommand cs) : (ofLine cs).lineCount = 0 := by
  rw [ofLine, htrim]
  split
  · rfl
  · rfl
  · exact absurd h (by simp [IsCommand, isNameChar, commandNames])
  · rename_i _ hmark _
    rcases h with h | h
    · obtain ⟨rest, rfl⟩ := List.head?_eq_some_iff.1 h
      exact absurd rfl (hmark rest)
    · exact lineCount_ofName h

theorem ofLine_eq_entry_self (htrim : trim cs = cs) (hblank : isBlankText cs = false)
    (h : ¬ IsCommand cs) : ofLine cs = entry cs := by
  rw [ofLine, htrim]
  split
  · exact absurd hblank (by decide)
  · exact absurd (.inl rfl) h
  · rfl
  · exact ofName_eq_entry fun hname => h (.inr hname)

end Command

/-- A command that enters no line leaves the unfinished entry as it is. -/
theorem stateAfter_obey {command : Command} (h : command.lineCount = 0) (shell : Shell) :
    ∃ desk, stateAfter (obey limits command) shell = { shell with desk } := by
  cases command with
  | blank => exact ⟨_, rfl⟩
  | help => exact ⟨_, rfl⟩
  | exit => exact ⟨_, rfl⟩
  | endOfInput => exact ⟨_, rfl⟩
  | ast text =>
    have hshow := stateAfter_underGuard (showTree limits (String.ofList text) (shell.lineNumber + 1)) shell
    exact ⟨_, (stateAfter_bind_pure _ Reply.done shell).trans hshow⟩
  | entry line => cases h

/-- A line as it reaches the shell when it was typed without blanks around it. -/
structure IsTrimmedLine (line : String) : Prop where
  some : line ≠ ""
  trimmed : trim line.toList = line.toList
  single : '\n' ∉ line.toList

theorem IsTrimmedLine.entered (h : IsTrimmedLine line) : Entered line.toList :=
  ⟨String.toList_eq_nil_iff.not.2 h.some,
    h.trimmed ▸ (withoutBlanksBehind_trimEnd (skipBlanks line.toList)).last, h.single⟩

/-- A line goes on with an entry that waits. -/
theorem enter_pending (hpending : shell.pending ≠ "") (hline : Entered line.toList) :
    enter limits line shell =
      if leavesOpen false 0 (shell.pending ++ line).toList then
        .ok () ⟨shell.desk, shell.pending ++ line ++ "\n", shell.lineNumber + 1, shell.startLine,
          .continued⟩
      else underGuard (runEntry limits (shell.pending ++ line) shell.startLine)
        ⟨shell.desk, "", shell.lineNumber + 1, shell.startLine, .first⟩ := by
  have hwaits : ¬ shell.pending.isEmpty = true := mt String.isEmpty_iff.1 hpending
  rw [hline.enter_eq, entryLine, if_neg hwaits]

theorem lineNumber_enter (limits : Limits) (line : String) (shell : Shell) :
    (stateAfter (enter limits line) shell).lineNumber = shell.lineNumber + 1 := by
  rw [stateAfter, enter_eq]
  dsimp only
  cases (preprocess (shell.pending ++ line)).2 with
  | true => rfl
  | false =>
    cases isBlankText (preprocess (shell.pending ++ line)).1.toList with
    | true => rfl
    | false =>
      rw [if_neg Bool.false_ne_true, if_neg Bool.false_ne_true, ← stateAfter, stateAfter_underGuard]

theorem onLine_eq_enter_iff (hline : IsTrimmedLine line) :
    onLine limits line shell = (enter limits line >>= fun _ => pure Reply.done) shell ↔
      ¬ IsCommand line.toList := by
  constructor
  · -- Only a line that is entered is counted.
    intro heq hcommand
    have hcount := Command.lineCount_ofLine hline.trimmed hcommand
    obtain ⟨desk, hobey⟩ := @stateAfter_obey limits _ hcount shell
    have hcounted := lineNumber_enter limits line shell
    rw [← stateAfter_bind_pure _ Reply.done, stateAfter, ← heq, onLine, ← stateAfter, hobey] at hcounted
    exact absurd hcounted (Nat.ne_of_lt (Nat.lt_succ_self _))
  · intro hcommand
    rw [onLine, Command.ofLine_eq_entry_self hline.trimmed (hline.entered.not_blank []) hcommand, obey,
      String.ofList_toList]

/-- Lines of which none is a command are all entered. -/
theorem giveAll_eq_enterAll {lines : List String}
    (h : ∀ line ∈ lines, IsTrimmedLine line ∧ ¬ IsCommand line.toList) (shell : Shell) :
    giveAll limits (lines.map .line) shell = enterAll limits lines shell := by
  induction lines generalizing shell with
  | nil => rfl
  | cons line rest ih =>
    obtain ⟨⟨hline, hcommand⟩, hrest⟩ := List.forall_mem_cons.1 h
    have hfirst := (@onLine_eq_enter_iff limits shell line hline).2 hcommand
    rw [List.map_cons, giveAll, enterAll]
    simp only [Input.give, bind, EStateM.bind] at hfirst ⊢
    rw [hfirst]
    cases enter limits line shell with
    | ok _ next => exact ih hrest next
    | error raised next => rfl

/-- What a shell that waits for the rest of an entry makes of a line. It goes on with the entry exactly if
the line is no command: then the line is put behind the entry, which waits for more or is worked on as a
whole. A command leaves the entry waiting as it was, and the line is not counted. So lines of which none is
a command do what they do when all of them are entered. -/
theorem later_line_goes_on_iff (limits : Limits) (shell : Shell) (line : String)
    (hpending : shell.pending ≠ "") (hline : IsTrimmedLine line) :
    (onLine limits line shell = (enter limits line >>= fun _ => pure Reply.done) shell ↔
      ¬ IsCommand line.toList) ∧
    (IsCommand line.toList → ∃ desk, stateAfter (onLine limits line) shell = { shell with desk }) ∧
    enter limits line shell =
      (if leavesOpen false 0 (shell.pending ++ line).toList then
        .ok () ⟨shell.desk, shell.pending ++ line ++ "\n", shell.lineNumber + 1, shell.startLine,
          .continued⟩
      else underGuard (runEntry limits (shell.pending ++ line) shell.startLine)
        ⟨shell.desk, "", shell.lineNumber + 1, shell.startLine, .first⟩) ∧
    ∀ later : List String, (∀ line ∈ later, IsTrimmedLine line ∧ ¬ IsCommand line.toList) →
      giveAll limits (later.map .line) shell = enterAll limits later shell := by
  refine ⟨onLine_eq_enter_iff hline, fun hcommand => ?_, enter_pending hpending hline.entered,
    fun later hlater => giveAll_eq_enterAll hlater shell⟩
  exact stateAfter_obey (Command.lineCount_ofLine hline.trimmed hcommand) shell

def begunWith (pending : String) : Shell :=
  { freshShell with pending, lineNumber := 1, startLine := 1, prompt := .continued }

/-- The name of a command may stand further inside a line. -/
theorem later_line_goes_on_iff_behind_operator :
    let shell := begunWith "do(define(help, 2),\n"
    shell.pending ≠ "" ∧ IsTrimmedLine "*(help, help))" ∧
    (onLine .standard "*(help, help))" shell =
        (enter .standard "*(help, help))" >>= fun _ => pure Reply.done) shell ↔
      ¬ IsCommand "*(help, help))".toList) ∧
    ¬ IsCommand "*(help, help))".toList ∧
    enter .standard "*(help, help))" shell =
      underGuard (runEntry .standard (shell.pending ++ "*(help, help))") 1)
        ⟨shell.desk, "", 2, 1, .first⟩ := by
  intro shell
  have hpending : shell.pending ≠ "" := by decide
  have hline : IsTrimmedLine "*(help, help))" := ⟨by decide, by decide, by decide⟩
  have hopen : leavesOpen false 0 (shell.pending ++ "*(help, help))").toList = false := by decide
  obtain ⟨hiff, -, henter, -⟩ := later_line_goes_on_iff .standard shell "*(help, help))" hpending hline
  rw [hopen, if_neg Bool.false_ne_true] at henter
  exact ⟨hpending, hline, hiff, by decide, henter⟩

/-- The last line of a call that only tells a name is obeyed if this is the name of a command. -/
theorem later_line_is_obeyed :
    let shell := begunWith "do(define(ast, 2),\n"
    giveAll .standard (["do(define(ast, 2),"].map .line) freshShell = .ok () shell ∧
      IsTrimmedLine "ast)" ∧
      onLine .standard "ast)" shell ≠
        (enter .standard "ast)" >>= fun _ => pure Reply.done) shell := by
  intro shell
  have hfirst : IsTrimmedLine "do(define(ast, 2)," := ⟨by decide, by decide, by decide⟩
  have hline : IsTrimmedLine "ast)" := ⟨by decide, by decide, by decide⟩
  have hentry : entryOf "do(define(ast, 2)," = "do(define(ast, 2)," := by decide
  have hopen : (preprocess "do(define(ast, 2),").2 = true := by decide
  have hgiven : giveAll .standard (["do(define(ast, 2),"].map .line) freshShell = .ok () shell := by
    rw [giveAll_eq_enterAll (List.forall_mem_singleton.2 ⟨hfirst, by decide⟩), enterAll_single,
      enter_first rfl hfirst.single, takenIn, if_pos hopen, hentry]
    rfl
  exact ⟨hgiven, hline, fun h => (onLine_eq_enter_iff hline).1 h (by decide)⟩

end CallScript.Shell
