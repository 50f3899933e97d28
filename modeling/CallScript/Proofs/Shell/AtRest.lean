import CallScript.Proofs.Shell.Continuation
import CallScript.Proofs.Shell.Entry

/-!
# Shells between two inputs

What a shell is like between two inputs, whatever was given to it before: nothing waits to be run or to
be shown, no text is being worked on, and if an entry is unfinished, the prompt tells so. Every input
leads from such a state to another one, since an entry is worked on under the guard, which reports errors
and lets none of them through. Only a loop that does not end keeps a shell from its next input.
-/

namespace CallScript.Shell

variable {limits : Limits} {desk : Desk}

/-- What waits for the next line: a text that leaves something open and has no tree, on lines of its own
and without blanks at its end. -/
structure Unfinished (text pending : String) : Prop where
  ended : pending = text ++ "\n"
  last : text.toList.getLast?.any (!Text.isBlank ·) = true
  continued : preprocess pending = (text, true)
  noTree : ∀ depth e, Grammar.parse depth text ≠ .ok e
  refused : ∀ depth, text.length < depth →
    ∃ refusal offset, Grammar.parse depth text = .error (.refused refusal offset)

theorem unfinished_of_continued {entry : String} (h : (preprocess entry).2 = true) :
    Unfinished (preprocess entry).1 ((preprocess entry).1 ++ "\n") := by
  obtain ⟨⟨blanks, hblanks, hentry⟩, hlast⟩ := withoutBlanksBehind_trimEnd entry.toList
  have htext := toList_preprocess entry
  generalize (preprocess entry).1 = text at htext
  rw [preprocess_snd, ← leavesOpen_trimEnd, ← htext] at h
  have htrim : Text.trimEnd text.toList = text.toList := by
    conv => rhs; rw [htext, hentry, ← htext, Text.trimEnd_append_blanks _ hblanks]
  have hnone : ∀ e, ¬ Grammar.Program text.toList e := by
    intro e he
    rw [he.not_leavesOpen] at h
    cases h
  have hnoTree : ∀ depth e, Grammar.parse depth text ≠ .ok e :=
    fun depth e he => hnone e (Grammar.parse_eq_ok_iff.1 he).1
  refine ⟨rfl, ?_, ?_, hnoTree, fun depth hdepth => ?_⟩
  · rw [← htext] at hlast
    cases hgetLast : text.toList.getLast? with
    | none =>
      rw [List.getLast?_eq_none_iff.1 hgetLast] at h
      cases h
    | some c => simpa [hgetLast] using hlast
  · have hkept : Text.trimEnd (text ++ "\n").toList = text.toList := by
      rw [String.toList_append, Text.trimEnd_append_blanks _ (by decide), htrim]
    rw [preprocess, hkept, h, String.ofList_toList]
  · cases hparse : Grammar.parse depth text with
    | ok e => exact absurd hparse (hnoTree depth e)
    | error failure =>
      cases failure with
      | refused refusal offset => exact ⟨refusal, offset, rfl⟩
      | tooDeep =>
        rw [← String.length_toList] at hdepth
        exact absurd (Grammar.parse_eq_tooDeep_iff_program.1 hparse)
          (Grammar.program_ne_tooDeep hdepth)

/-- What a shell is like after so many lines were entered. -/
structure AtRest (count : Nat) (shell : Shell) : Prop where
  desk : shell.desk.AtRest
  counted : shell.lineNumber = count
  asks : shell.prompt = .continued ↔ shell.pending ≠ ""
  pending : shell.pending ≠ "" → ∃ text, Unfinished text shell.pending

/-- A step ends with a shell at rest, or a loop does not end. -/
def EndsAtRest {α : Type} (count : Nat) : EStateM.Result Raised Shell α → Prop
  | .ok _ shell => shell.AtRest count
  | .error raised _ => raised = .ofHalt .outOfRounds

variable {shell : Shell} {count : Nat}

theorem EndsAtRest.bind {α β : Type} {count' : Nat} {step : Step α} {next : α → Step β}
    (h : EndsAtRest count (step shell))
    (hnext : ∀ a shell', shell'.AtRest count → EndsAtRest count' (next a shell')) :
    EndsAtRest count' ((step >>= next) shell) := by
  simp only [Bind.bind, EStateM.bind]
  cases hstep : step shell with
  | ok a shell' =>
    rw [hstep] at h
    exact hnext a shell' h
  | error raised shell' =>
    rw [hstep] at h
    exact h

theorem EndsAtRest.bind_pure {step : Step Unit} (h : EndsAtRest count (step shell)) (reply : Reply) :
    EndsAtRest count ((step >>= fun _ => pure reply) shell) :=
  h.bind fun _ _ hrest => hrest

theorem atRest_ofDesk (h : desk.AtRest) : (ofDesk desk).AtRest 0 :=
  ⟨h, rfl, by simp [ofDesk], by simp [ofDesk]⟩

theorem AtRest.atDesk_note (h : shell.AtRest count) (event : Event) :
    EndsAtRest count (atDesk (Job.note event) shell) :=
  ⟨h.desk.inWorld _, h.counted, h.asks, h.pending⟩

theorem AtRest.underGuard (h : shell.AtRest count) {task : Job Unit}
    (htask : Ends Desk.AtRest (task shell.desk)) :
    EndsAtRest count (Shell.underGuard task shell) := by
  rcases guarded_ends htask with ⟨stopped, desk', hguarded, hdesk'⟩ | ⟨desk', hguarded⟩
  · simp only [Shell.underGuard, atDesk, bind, EStateM.bind, hguarded]
    exact ⟨hdesk', h.counted, h.asks, h.pending⟩
  · simp only [Shell.underGuard, atDesk, bind, EStateM.bind, hguarded]
    rfl

theorem AtRest.ast (h : shell.AtRest count) (text : String) :
    EndsAtRest count (Shell.ast limits text shell) :=
  h.underGuard (showTree_ends h.desk text (shell.lineNumber + 1))

theorem AtRest.enter (h : shell.AtRest count) (line : String) :
    EndsAtRest (count + 1) (Shell.enter limits line shell) := by
  have hcounted : shell.lineNumber + 1 = count + 1 := by rw [h.counted]
  have hbegun : ∀ first, Shell.AtRest (count + 1)
      ⟨shell.desk, "", shell.lineNumber + 1, first, .first⟩ :=
    fun first => ⟨h.desk, hcounted, by simp, by simp⟩
  rw [enter_eq]
  generalize hentry : preprocess (shell.pending ++ line) = entry
  cases hopen : entry.2 with
  | true =>
    have hpending := @unfinished_of_continued (shell.pending ++ line) (hentry ▸ hopen)
    rw [hentry] at hpending
    simp only [hopen, if_true]
    exact ⟨h.desk, hcounted, by simp, fun _ => ⟨_, hpending⟩⟩
  | false =>
    simp only [hopen, Bool.false_eq_true, if_false]
    split
    · exact hbegun _
    · exact (hbegun _).underGuard (runEntry_ends h.desk _ _)

def Command.lineCount : Command → Nat
  | entry _ => 1
  | _ => 0

theorem AtRest.obey (h : shell.AtRest count) (command : Command) :
    EndsAtRest (count + command.lineCount) (Shell.obey limits command shell) := by
  cases command with
  | blank => exact h
  | ast text => exact (h.ast (String.ofList text)).bind_pure .done
  | help => exact (h.atDesk_note _).bind_pure .done
  | exit => exact h
  | endOfInput => exact (h.atDesk_note _).bind_pure .quit
  | entry line => exact (h.enter _).bind_pure .done

/-- What is given to a shell: a line, in which the command is looked for, or a command itself. -/
inductive Input where
  | line (text : String)
  | command (command : Command)

def Input.asked : Input → Command
  | line text => .ofLine text.toList
  | command asked => asked

def Input.give (limits : Limits) : Input → Step Reply
  | line text => onLine limits text
  | command asked => obey limits asked

/-- Gives inputs to a shell, one after another, whatever the replies to them are. -/
def giveAll (limits : Limits) : List Input → Step Unit
  | [] => pure ()
  | input :: rest => do
    let _ ← input.give limits
    giveAll limits rest

def lineCount : List Input → Nat
  | [] => 0
  | input :: rest => input.asked.lineCount + lineCount rest

theorem AtRest.give (h : shell.AtRest count) (input : Input) :
    EndsAtRest (count + input.asked.lineCount) (input.give limits shell) := by
  cases input with
  | line text => exact h.obey (.ofLine text.toList)
  | command asked => exact h.obey asked

theorem AtRest.giveAll (h : shell.AtRest count) (inputs : List Input) :
    EndsAtRest (count + lineCount inputs) (Shell.giveAll limits inputs shell) := by
  induction inputs generalizing shell count with
  | nil => exact h
  | cons input rest ih =>
    rw [lineCount, ← Nat.add_assoc]
    exact (h.give input).bind fun _ _ hnext => ih hnext

/-- Whatever is given to a new shell, nothing stops it but a loop that does not end. After every input
nothing waits to be run or shown, no text is being worked on, errors do not end the process, the lines
entered are counted, and the prompt tells whether an entry is unfinished, which then can be read at no
depth. -/
theorem at_rest_after_inputs (limits : Limits) (forms : Registry) (fatal : Bool) (style : Text.Style)
    (writes verbose : Bool) (w : World) (inputs : List Input) :
    EndsAtRest (lineCount inputs) (giveAll limits inputs
      (ofDesk (Session.start Session.console true forms (.fresh fatal style) writes verbose w))) := by
  have hstart := atRest_ofDesk (atRest_start forms fatal style writes verbose w)
  have hinputs := @AtRest.giveAll limits _ _ hstart inputs
  rwa [Nat.zero_add] at hinputs

end CallScript.Shell
