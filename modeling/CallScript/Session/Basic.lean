import CallScript.Eval.Basic
import CallScript.Report.Reporter

/-!
# Sessions

A session runs one program after another in one frame, its global one, which stands inside a root
frame of its own; so programs see each other's definitions and never touch the native functions
themselves. Texts are first added to a queue, which parses them, and then run in order. The first
error drops the rest of the queue. Results wait until they are taken, the oldest first.

While a text is being parsed or run, the reporter of the session knows it, so that an error can be
reported together with the text and its line number.

A session whose path is not the console's begins with the text of the file of that name. The path must
not hold the character U+0000. The file must be readable and hold UTF-8; its line ends are unified, and
a file of blanks adds no program. Only an interactive session may have the console's own path.
-/

namespace CallScript

structure Queued where
  source : String
  program : Expr
  line : Int

structure Session where
  path : String
  /-- The programs come from a console. -/
  interactive : Bool
  forms : Registry
  root : FrameId
  globals : FrameId
  queue : List Queued
  results : List Value
  reporter : Reporter
  /-- The log is written out in full. -/
  verbose : Bool

/-- A session and the world that it works in. -/
structure Desk where
  session : Session
  world : World

/-- Work at a desk, which may be stopped. What was done before it was stopped stays done. -/
abbrev Job := EStateM Raised Desk

namespace Job

def update (change : Session → Session) : Job Unit :=
  modify fun desk => { desk with session := change desk.session }

def updateReporter (change : Reporter → Reporter) : Job Unit :=
  update fun s => { s with reporter := change s.reporter }

def note (event : Event) : Job Unit :=
  modify fun desk =>
    { desk with world := { desk.world with events := desk.world.events.push event } }

def attempt {α : Type} (run : Run α) : Job (Except Halt α) := fun desk =>
  match run desk.world with
  | .ok a world => .ok (.ok a) { desk with world }
  | .error halt world => .ok (.error halt) { desk with world }

/-- Does work under the reporter's guard. True if the work was stopped and that is the end of it. -/
def guarded (task : Job Unit) : Job Bool := fun desk =>
  match task desk with
  | .ok () desk => .ok false desk
  | .error raised desk =>
    let handled := desk.session.reporter.guard raised
    let events := if handled.report.isEmpty then desk.world.events
      else desk.world.events.push (.report handled.report)
    let after : Desk :=
      ⟨{ desk.session with reporter := handled.reporter }, { desk.world with events }⟩
    match handled.verdict with
    | .suppressed => .ok true after
    | .raised raised => .error raised after

end Job

namespace Session

def console : String := "<in>"

/-- Opens a session without programs. An interactive one does not end the process on errors. -/
def start (path : String) (interactive : Bool) (forms : Registry) (reporter : Reporter)
    (writes verbose : Bool) (w : World) : Desk :=
  let (root, w) := w.addRoot writes
  let (globals, w) := w.addFrame [] (some root)
  let known := reporter.leave path
  { session :=
      { path, interactive, forms, root, globals, queue := [], results := [], verbose
        reporter := if interactive then { known with fatal := false } else known }
    world := w }

/-- Puts an entry into the log. With the whole log written out, an entry must not show anything
nested deeper than there is room for. -/
def log (limits : Limits) (notice : Notice) : Job Unit := do
  if (← get).session.verbose && !notice.fits limits.depth then throw (.host .stackExhausted)
  Job.note (.notice notice)

/-- Parses a text that starts at a line and puts it into the queue. -/
def add (limits : Limits) (source : String) (line : Int) : Job Unit := do
  let path := (← get).session.path
  Job.updateReporter (·.enter path source line)
  match Grammar.parse limits.depth source with
  | .error .tooDeep => throw (.complaint .nestedTooDeeply)
  | .error (.refused refusal offset) => throw (.complaint (.ofRefusal source refusal offset))
  | .ok program =>
    Job.updateReporter (·.leave path)
    log limits (.queued path line program)
    Job.update fun s => { s with queue := s.queue ++ [⟨source, program, line⟩] }

def runQueued (limits : Limits) (item : Queued) : Job Unit := do
  let s := (← get).session
  Job.updateReporter (·.enter s.path item.source item.line)
  match ← Job.attempt (eval limits.rounds limits.depth s.forms s.globals item.program) with
  | .error .tooDeep => throw (.complaint .recursionTooDeep)
  | .error halt => throw (.ofHalt halt)
  | .ok value =>
    log limits (.evaluated s.path item.line value)
    Job.update fun s => { s with results := s.results ++ [value] }
    Job.updateReporter (·.leave s.path)

def runAll (limits : Limits) : List Queued → Job Unit
  | [] => pure ()
  | item :: rest => do
    runQueued limits item
    runAll limits rest

def run (limits : Limits) : Job Unit := do
  let queue := (← get).session.queue
  Job.update fun s => { s with queue := [] }
  runAll limits queue

def pop : Job Value := do
  match (← get).session.results with
  | [] => throw (.host .noResult)
  | value :: rest =>
    Job.update fun s => { s with results := rest }
    pure value

def textOf (limits : Limits) (value : Value) : Except Raised String :=
  match value.text? limits.depth false with
  | some text => .ok text
  | none => .error (.host .stackExhausted)

def showValue (limits : Limits) (value : Value) : Job Unit := do
  match textOf limits value with
  | .ok text => Job.note (.answer (text ++ "\n"))
  | .error raised => throw raised

/-- The value of a text that is run as the only program. -/
def value (limits : Limits) (source : String) : Job Value := do
  add limits source 1
  run limits
  pop

/-- The value of a program given in pieces, each on lines of its own. -/
def valueOfFragments (limits : Limits) (fragments : List String) : Job Value :=
  value limits (String.intercalate "\n" fragments)

def unreadable (path : String) : Diagnostic :=
  { kind := .error, message := "'" ++ path ++ "' could not be opened", pointed := false }

/-- A session that is not interactive bears the console's path. -/
def reserved : Diagnostic :=
  { kind := .error, message := "'" ++ console ++ "' is a reserved filename" }

def decodeFile (bytes : List UInt8) : Except HostFault (List Char) :=
  match Text.Utf8.decode bytes with
  | .ok cs => .ok (Text.unifyLineEnds cs)
  | .error fault => .error (.undecodable fault)

/-- Adds the program of the session's file, given its bytes if it can be read. -/
def load (limits : Limits) (file : Option (List UInt8)) : Job Unit := do
  let s := (← get).session
  if s.path = console then
    if !s.interactive then throw (.complaint reserved)
  else if s.path.contains '\x00' then throw (.host .badPath)
  else match file with
    | none => throw (.complaint (unreadable s.path))
    | some bytes =>
      match decodeFile bytes with
      | .error fault => throw (.host fault)
      | .ok cs => if !Text.isBlankText cs then add limits (String.ofList cs) 1

end Session

end CallScript
