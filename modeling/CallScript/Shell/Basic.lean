import CallScript.Expr.Print
import CallScript.Session.Basic
import CallScript.Shell.Line

/-!
# The shell

The shell runs what is typed into it, one entry after another, and shows the values. An entry that
leaves something open is continued on the next line, under another prompt. Every line given to
`enter` is counted, and an entry is added to the session under the number of its first line, so that
errors are located from there. All work on an entry is done under the reporter's guard.
-/

namespace CallScript

inductive Prompt where
  | first
  | continued
  deriving DecidableEq, Repr

def Prompt.text : Prompt → String
  | .first => "> "
  | .continued => ". "

structure Shell where
  desk : Desk
  /-- The lines of an unfinished entry, each ended by a line feed. -/
  pending : String
  /-- The number of lines given to `enter` so far. -/
  lineNumber : Nat
  /-- The number of the first line of the entry. -/
  startLine : Nat
  prompt : Prompt

/-- What comes of a line: nothing in particular, the notice that it was blank, or the wish to
leave. -/
inductive Reply where
  | done
  | blank
  | quit
  deriving DecidableEq, Repr

namespace Shell

/-- Steps of a shell, which may be stopped. -/
abbrev Step := EStateM Raised Shell

def ofDesk (desk : Desk) : Shell :=
  ⟨desk, "", 0, 0, .first⟩

def atDesk {α : Type} (task : Job α) : Step α := fun shell =>
  match task shell.desk with
  | .ok a desk => .ok a { shell with desk }
  | .error raised desk => .error raised { shell with desk }

def underGuard (task : Job Unit) : Step Unit := do
  let _ ← atDesk (Job.guarded task)

/-- Takes the results and shows them, at most `count` of them. -/
def showResults (limits : Limits) : (count : Nat) → Job Unit
  | 0 => pure ()
  | count + 1 => do
    let value ← Session.pop
    Session.showValue limits value
    showResults limits count

def runEntry (limits : Limits) (text : String) (line : Nat) : Job Unit := do
  Session.add limits text line
  Session.run limits
  showResults limits (← get).session.results.length

def enter (limits : Limits) (line : String) : Step Unit := do
  let shell ← get
  let lineNumber := shell.lineNumber + 1
  let startLine := if shell.pending.isEmpty then lineNumber else shell.startLine
  let (text, unfinished) := preprocess (shell.pending ++ line)
  if unfinished then
    set { shell with lineNumber, startLine, pending := text ++ "\n", prompt := .continued }
  else
    set { shell with lineNumber, startLine, pending := "", prompt := .first }
    if !Text.isBlankText text.toList then underGuard (runEntry limits text startLine)

def missingExpression : Diagnostic :=
  { kind := .syntaxError, message := "ast expects an expression" }

def showTree (limits : Limits) (text : String) (line : Nat) : Job Unit := do
  if Text.isBlankText text.toList then throw (.complaint missingExpression)
  let path := (← get).session.path
  Job.updateReporter (·.enter path text (some line))
  match Grammar.parse limits.depth text with
  | .error e => throw (.ofParseError text e)
  | .ok tree =>
    if !tree.fits limits.depth then throw (.host .stackExhausted)
    Job.note (.answer (tree.outline 0 ++ "\n"))
    Job.updateReporter (·.leave path)

/-- Shows the tree of a text, which counts as standing on the next line. -/
def ast (limits : Limits) (text : String) : Step Unit := do
  let line := (← get).lineNumber + 1
  underGuard (showTree limits text line)

def helpText : String :=
  "Welcome to the Egg interpreter!\n\n" ++
  "Everything in Egg is an expression: a number, a \"string\", a word, or a call\n" ++
  "like +(1, 2). Control flow uses the special forms if, while, do, define and fun.\n\n" ++
  "Try it out by typing 'define(square, fun(x, *(x, x)))'. This will bind a\n" ++
  "function to the name 'square'. Next, try typing 'square(4)', giving 16 as the\n" ++
  "result. Type 'ast <expr>' to see how an expression is parsed.\n"

def obey (limits : Limits) : Command → Step Reply
  | .blank => pure .blank
  | .ast text => do
    ast limits (String.ofList text)
    pure .done
  | .help => do
    atDesk (Job.note (.answer helpText))
    pure .done
  | .exit => pure .quit
  | .endOfInput => do
    atDesk (Job.note (.answer "\n"))
    pure .quit
  | .entry line => do
    enter limits (String.ofList line)
    pure .done

def onLine (limits : Limits) (line : String) : Step Reply :=
  obey limits (.ofLine line.toList)

def greeting : String :=
  "Egg interpreter :: Python backend\nType '?' or 'help' for more information.\n"

def showPrompt : Step Unit := do
  let prompt := (← get).prompt
  atDesk (Job.note (.answer prompt.text))

/-- Takes lines until one of them, or the end of them, makes the shell leave. -/
def interact (limits : Limits) : List String → Step Unit
  | [] => do
    showPrompt
    let _ ← obey limits .endOfInput
  | line :: rest => do
    showPrompt
    match ← onLine limits line with
    | .quit => pure ()
    | _ => interact limits rest

end Shell

end CallScript
