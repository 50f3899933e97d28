import CallScript.Proofs.Grammar.ClosedUp
import CallScript.Proofs.Grammar.Joined
import CallScript.Proofs.Session.Batch
import CallScript.Proofs.Shell.AtRest
import Mathlib.Data.List.Induction

/-!
# Programs typed line by line

A program may be typed on several lines if the shell asks for more after each of them but the last. What
was typed so far is trimmed at every line, so that at the last one it is the whole text, trimmed and closed
up; and since this changes nothing about what is open, the shell asks for more exactly where it would of
the text as it was typed. Then one program is run, that of the closed-up text: its tree is evaluated once,
and its value is shown.
-/

namespace CallScript.Shell

open Text Grammar

variable {limits : Limits} {shell : Shell} {text line : String} {lines : List String}

/-- What a text comes to that is typed line by line. -/
def entryOf (text : String) : String :=
  String.ofList (closeUp (trimEnd text.toList))

theorem preprocess_line (hline : '\n' ∉ line.toList) :
    preprocess line = (entryOf line, (preprocess line).2) := by
  obtain ⟨blanks, -, hblanks⟩ := exists_blanks_behind line.toList
  have hkept : '\n' ∉ trimEnd line.toList :=
    fun hmem => hline (hblanks ▸ List.mem_append_left _ hmem)
  rw [preprocess, entryOf, closeUp_line hkept]

def enterAll (limits : Limits) : List String → Step Unit
  | [] => pure ()
  | line :: rest => do
    enter limits line
    enterAll limits rest

/-- What the last line of a text leads to at a shell that was given the lines before it: the shell waits
for more, or takes up the entry. -/
def takenIn (limits : Limits) (text : String) (desk : Desk) (lineNumber startLine : Nat) :
    EStateM.Result Raised Shell Unit :=
  if (preprocess text).2 then .ok () ⟨desk, entryOf text ++ "\n", lineNumber, startLine, .continued⟩
  else if isBlankText (entryOf text).toList then .ok () ⟨desk, "", lineNumber, startLine, .first⟩
  else underGuard (runEntry limits (entryOf text) startLine) ⟨desk, "", lineNumber, startLine, .first⟩

theorem enter_first (hpending : shell.pending = "") (hline : '\n' ∉ line.toList) :
    enter limits line shell =
      takenIn limits line shell.desk (shell.lineNumber + 1) (shell.lineNumber + 1) := by
  rw [enter_eq, hpending, String.empty_append, preprocess_line hline]
  rfl

theorem enterAll_single (limits : Limits) (line : String) (shell : Shell) :
    enterAll limits [line] shell = enter limits line shell := by
  simp only [enterAll, bind, EStateM.bind]
  cases enter limits line shell <;> rfl

/-- The shell asks for more after every line but the last. -/
def AsksForEachLine (lines : List String) : Prop :=
  ∀ k, 0 < k → k < lines.length → (preprocess (String.intercalate "\n" (lines.take k))).2 = true

theorem AsksForEachLine.take (h : AsksForEachLine lines) (k : Nat) : AsksForEachLine (lines.take k) := by
  intro j hj hlength
  rw [List.length_take] at hlength
  rw [List.take_take, Nat.min_eq_left (by omega)]
  exact h j hj (by omega)

end CallScript.Shell
