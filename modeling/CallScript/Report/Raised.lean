import CallScript.Report.Diagnostic
import CallScript.Store.World
import CallScript.Text.Quoted
import CallScript.Text.Utf8

/-!
# What stops a step

A step of the interpreter is stopped by an error of the language, which has a diagnostic, by the
request to end the process, or by a condition of the machine that runs it. Conditions of the machine
have names and messages too, since a report that meets one says which it was.
-/

namespace CallScript

/-- Conditions that are no errors of the language. -/
inductive HostFault where
  | interrupted
  /-- There is no room for another nested call. -/
  | stackExhausted
  | noResult
  | noText
  /-- A path holds the character U+0000. -/
  | badPath
  /-- A file does not hold UTF-8. -/
  | undecodable (fault : Text.Utf8.Fault)
  /-- A node was to be changed. -/
  | frozen (className : String)
  /-- A frame was to be put into something that is no frame. -/
  | badParent (typeName : String)
  | missingKey (key : String)
  | other (name message : String)
  deriving DecidableEq, Repr

namespace HostFault

def name : HostFault → String
  | interrupted => "KeyboardInterrupt"
  | stackExhausted => "RecursionError"
  | noResult => "IndexError"
  | noText => "TypeError"
  | badPath => "ValueError"
  | undecodable _ => "UnicodeDecodeError"
  | frozen _ => "AttributeError"
  | badParent _ => "AssertionError"
  | missingKey _ => "KeyError"
  | other name _ => name

def byteText (b : UInt8) : String :=
  String.ofList (Text.hexDigits 2 b.toNat)

def message : HostFault → String
  | interrupted => ""
  | stackExhausted => Diagnostic.depthExceeded
  | noResult => "pop from empty list"
  | noText => "expected string or bytes-like object, got 'list'"
  | badPath => "embedded null byte"
  | undecodable fault =>
    let place :=
      if fault.width = 1 then "byte 0x" ++ byteText fault.first ++ " in position " ++
        toString fault.start
      else "bytes in position " ++ toString fault.start ++ "-" ++
        toString (fault.start + fault.width - 1)
    "'utf-8' codec can't decode " ++ place ++ ": " ++ fault.reason.message
  | frozen className => className ++ " is immutable"
  | badParent typeName => "parent must be Environment, got: <class '" ++ typeName ++ "'>"
  | missingKey key => Text.quote key
  | other _ message => message

end HostFault

inductive Raised where
  | complaint (diagnostic : Diagnostic)
  | host (fault : HostFault)
  | exit (code : Option Int)
  deriving DecidableEq, Repr

/-- What stops a step whose evaluation halted, if the depth limit counts as a condition of the
machine. A loop that has used up its rounds counts as one too. -/
def Raised.ofHalt : Halt → Raised
  | .fault fault => .complaint (.ofFault fault)
  | .tooDeep => .host .stackExhausted
  | .outOfRounds => .host (.other "TimeoutError" "a loop took too many rounds")

/-- What stops a step whose text is refused. -/
def Raised.ofParseError (source : String) : Grammar.ParseError → Raised
  | .refused refusal offset => .complaint (.ofRefusal source refusal offset)
  | .tooDeep => .host .stackExhausted

end CallScript
