import CallScript.Expr.Print
import CallScript.Store.World

/-!
# The log

The notices of a record as lines of the log, each with its level and the part of the interpreter that
speaks. Warnings are always written, the other notices only if the log is to be written in full.
-/

namespace CallScript.CommandLine

inductive Level where
  | debug
  | warning
  deriving DecidableEq, Repr

def levelOf : Notice → Level
  | .shadowsForm _ => .warning
  | _ => .debug

def noticeLine : Notice → String
  | .shadowsForm name => "WARNING:egg.pure.forms: " ++ shadowWarning name
  | .closureMade params =>
    "DEBUG:egg.pure.values: closure created: fun(" ++ String.intercalate ", " params ++
      "), def_env_id=ID"
  | .queued path line program =>
    "DEBUG:egg.lang.session: " ++ path ++ ":" ++ toString line ++ ": queued " ++ program.text
  | .evaluated path line value =>
    "DEBUG:egg.lang.session: " ++ path ++ ":" ++ toString line ++ ": evaluated to " ++
      value.debugText

def logText (verbose : Bool) (events : Array Event) : String :=
  String.join <| events.toList.map fun
    | .notice notice =>
      if verbose || levelOf notice = .warning then noticeLine notice ++ "\n" else ""
    | _ => ""

/-- What the user is shown: lines written by programs, answers and reports. -/
def shownText (events : Array Event) : String :=
  String.join <| events.toList.map fun
    | .line text => text ++ "\n"
    | .answer text => text
    | .report text => text
    | .notice _ => ""

end CallScript.CommandLine
