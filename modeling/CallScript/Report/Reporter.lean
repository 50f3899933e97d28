import CallScript.Report.Raised
import CallScript.Text.Blank

/-!
# Reporting errors

A reporter knows the files that are being worked on, in the order in which it first heard of them, and
for each of them the text and the line number that it is at, if it is at one. A report of an error
that has a place in its source shows that place. A report of any other error lists the first lines of
the texts that are being worked on. After a report the reporter forgets the texts, unless errors are
fatal: then the process is to end instead.
-/

namespace CallScript

structure Trace where
  path : String
  text : Option String
  line : Option Int
  deriving DecidableEq, Repr

structure Reporter where
  fatal : Bool
  traces : List Trace
  style : Text.Style

namespace Reporter

def fresh (fatal : Bool) (style : Text.Style) : Reporter :=
  ⟨fatal, [], style⟩

/-- Puts a trace in the place of the one with the same path, or at the end. -/
def setTrace (trace : Trace) : List Trace → List Trace
  | [] => [trace]
  | known :: rest =>
    if known.path = trace.path then trace :: rest else known :: setTrace trace rest

def enter (path : String) (text : Option String) (line : Option Int) (r : Reporter) : Reporter :=
  { r with traces := setTrace ⟨path, text, line⟩ r.traces }

def leave (path : String) (r : Reporter) : Reporter :=
  r.enter path none none

def leaveAll (r : Reporter) : Reporter :=
  { r with traces := r.traces.map fun trace => ⟨trace.path, none, none⟩ }

def isLocated (d : Diagnostic) : Bool :=
  !d.internal && d.source != "" && d.pointed

def lineText : Option Int → String
  | none => "None"
  | some n => toString n

/-- The entry of a file in a list of the texts being worked on, if its text is not blank. -/
def traceEntry (trace : Trace) : Option String :=
  match trace.text with
  | none => none
  | some text =>
    let shown := Text.trim text.toList
    if shown.isEmpty then none
    else some ("  File '" ++ trace.path ++ "', line " ++ lineText trace.line ++ ":\n    " ++
      String.ofList (Text.firstLine shown) ++ "\n")

def traceList (r : Reporter) : String :=
  let entries := r.traces.filterMap traceEntry
  (if 1 < entries.length then "Traceback:\n" else "") ++ String.join entries

/-- The number of a line that lies some lines below the one that a text starts at. A text that starts
at no line, or at line zero, counts as starting at the first one. -/
def lineBelow (line : Option Int) (offset : Nat) : Int :=
  (match line with
    | none | some 0 => 1
    | some n => n) + offset

/-- The place of an error: file, line and column, counted from one. -/
def placeText (r : Reporter) (d : Diagnostic) : String :=
  let (path, line) := match r.traces with
    | [] => ("<egg>", none)
    | trace :: _ => (trace.path, trace.line)
  let place := d.locate
  r.style.bold (path ++ ":" ++ toString (lineBelow line place.lineOffset) ++ ":" ++
    toString (place.column + 1) ++ ": ")

def report (r : Reporter) (d : Diagnostic) : String :=
  (if isLocated d then r.placeText d else r.traceList) ++
    (if d.internal then r.style.alarm "[internal] " else "") ++
    r.style.alarm "error: " ++ d.kind.name ++ ": " ++ d.message ++ "\n" ++
    (if isLocated d then d.excerpt r.style ++ "\n" else "")

/-- What a step was stopped by still stops what is around it, or not. -/
inductive Verdict where
  | suppressed
  | raised (raised : Raised)
  deriving DecidableEq, Repr

/-- What happens to an error: its report, the reporter afterwards, and whether the process is to
end. -/
structure Handled where
  report : String
  reporter : Reporter
  verdict : Verdict

def throw (r : Reporter) (d : Diagnostic) : Handled :=
  if r.fatal then ⟨r.report d, r, .raised (.exit (some 1))⟩
  else ⟨r.report d, r.leaveAll, .suppressed⟩

/-- Deals with what stopped a step. Errors of the language are reported and go no further; so are an
interruption and a lack of room for nested calls. Any other condition of the machine is reported as
unknown and goes on, and the request to end the process goes on unreported. -/
def guard (r : Reporter) : Raised → Handled
  | .complaint d => r.throw d
  | .exit code => ⟨"", r, .raised (.exit code)⟩
  | .host .interrupted => r.throw { kind := .error, message := "keyboard interrupt" }
  | .host .stackExhausted =>
    r.throw { kind := .recursion, message := Diagnostic.depthExceeded }
  | .host fault =>
    let handled := r.throw
      { kind := .error
        message := "unknown error: '" ++ fault.name ++ ": " ++ fault.message ++ "'"
        internal := true }
    match handled.verdict with
    | .suppressed => { handled with verdict := .raised (.host fault) }
    | .raised _ => handled

end Reporter

end CallScript
