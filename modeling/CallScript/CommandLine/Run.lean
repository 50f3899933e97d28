import CallScript.CommandLine.Log
import CallScript.CommandLine.Options
import CallScript.Shell.Basic

/-!
# The command line

A text given as an option is run as the only program and its value shown; the program of a file is run
and its value shown; without either, the shell takes lines. A text and a file are each one work under
a guard that ends the process on errors.
-/

namespace CallScript

/-- The emphasis of terminals. The codes are written around an empty text too. -/
def Text.Style.coloured : Text.Style where
  bold text := "\x1b[1m" ++ text ++ "\x1b[0m"
  alarm text := "\x1b[1m\x1b[31m" ++ text ++ "\x1b[0m"

namespace CommandLine

def usage : String :=
  "usage: egg [-h] [-e EXPR] [-v] [file]\n"

def helpText : String :=
  usage ++
  "\npositional arguments:\n" ++
  "  file                  file to interpret and run (if empty, goes to command-\n" ++
  "                        line mode)\n" ++
  "\noptions:\n" ++
  "  -h, --help            show this help message and exit\n" ++
  "  -e EXPR, --eval EXPR  evaluate EXPR and print its value\n" ++
  "  -v, --verbose         log debug messages to stderr\n"

structure Outcome where
  exit : Option (Option Int)
  out : String
  err : String
  deriving DecidableEq, Repr

def Stop.outcome : Stop → Outcome
  | .help => ⟨some (some 0), helpText, ""⟩
  | stop => ⟨some (some 2), "", usage ++ "egg: error: " ++ stop.message ++ "\n"⟩

/-- Runs a text and shows its value. Errors end the process, although the session has the console's
path; the lack of a text is one. -/
def runText (limits : Limits) (source : Option String) : Job Unit := do
  Job.updateReporter fun r => { r with fatal := true }
  match source with
  | none => throw (.host .noText)
  | some source =>
    let value ← Session.value limits source
    Session.showValue limits value

def showAll (limits : Limits) : List Value → Job Unit
  | [] => pure ()
  | value :: rest => do
    Session.showValue limits value
    showAll limits rest

def runFile (limits : Limits) (file : Option (List UInt8)) : Job Unit := do
  Session.load limits file
  Session.run limits
  showAll limits (← get).session.results

def openDesk (style : Text.Style) (settings : Settings) : Desk :=
  let reporter := Reporter.fresh true style
  match settings.eval, settings.file with
  | none, some path =>
    Session.start path false .standard reporter true settings.verbose .empty
  | _, _ => Session.start Session.console true .standard reporter true settings.verbose .empty

def openShell (style : Text.Style) (settings : Settings) : Shell :=
  let desk := openDesk style settings
  .ofDesk { desk with world :=
    { desk.world with events := desk.world.events.push (.answer Shell.greeting) } }

def outcomeOf {σ α : Type} (desk : σ → Desk) : EStateM.Result Raised σ α → Outcome
  | .ok _ s => written none (desk s)
  | .error (.exit code) s => written (some code) (desk s)
  | .error _ s => written (some (some 1)) (desk s)
where
  /-- What a record comes to in the two streams. -/
  written (exit : Option (Option Int)) (desk : Desk) : Outcome :=
    ⟨exit, shownText desk.world.events, logText desk.session.verbose desk.world.events⟩

/-- Follows a command line. `read` gives the bytes of a file that can be read, and `input` holds the
lines that the user types. -/
def follow (limits : Limits) (style : Text.Style) (read : String → Option (List UInt8))
    (input : List String) (settings : Settings) : Outcome :=
  match settings.eval, settings.file with
  | some source, _ =>
    outcomeOf id ((Job.guarded (runText limits source)).run (openDesk style settings))
  | none, some path =>
    outcomeOf id ((Job.guarded (runFile limits (read path))).run (openDesk style settings))
  | none, none =>
    outcomeOf Shell.desk ((Shell.interact limits input).run (openShell style settings))

def run (limits : Limits) (style : Text.Style) (read : String → Option (List UInt8))
    (input : List String) (args : List String) : Outcome :=
  match parse args with
  | .ok settings => follow limits style read input settings
  | .error stop => stop.outcome

end CommandLine

end CallScript
