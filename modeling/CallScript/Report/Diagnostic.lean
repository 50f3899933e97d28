import CallScript.Fault
import CallScript.Grammar.Parse

/-!
# Diagnostics

An error as it is reported: its kind and message and, where the error is one of a source text, that
text with the offsets that the error covers. A diagnostic can point into its source: `locate` finds
the line and the column of the first offset, counting line feeds only, and `excerpt` shows the line
with the offending part marked underneath.

Offsets are those of slices, the parts of a text between two of them. An offset below zero counts from the
end of the text, and one that lies outside counts as the end it lies beyond, so every pair of integers names
a part, perhaps an empty one. The column of an offset below zero is counted as if it did not count from the
end.

Reports set some of their words off in a style. How this is done is left to where they are written; in the
plain style the words stand as they are.
-/

namespace CallScript

namespace Text

def charsBefore (length : Nat) (offset : Int) : Nat :=
  if offset < 0 then (length + offset).toNat else min offset.toNat length

def upTo (offset : Int) (cs : List Char) : List Char :=
  cs.take (charsBefore cs.length offset)

def onward (offset : Int) (cs : List Char) : List Char :=
  cs.drop (charsBefore cs.length offset)

def slice (first last : Int) (cs : List Char) : List Char :=
  (upTo last cs).drop (charsBefore cs.length first)

theorem upTo_ofNat (n : Nat) (cs : List Char) : upTo n cs = cs.take n := by
  have h : charsBefore cs.length n = min n cs.length := by
    unfold charsBefore
    rw [if_neg (by omega), Int.toNat_natCast]
  rw [upTo, h, List.take_eq_take_iff]
  omega

/-- How a report sets words off: in bold, or so that they alarm. -/
structure Style where
  bold : String → String
  alarm : String → String

def Style.plain : Style :=
  ⟨id, id⟩

end Text

structure Diagnostic where
  kind : ErrorKind
  message : String
  /-- The text in which the error lies, or nothing. -/
  source : String := ""
  /-- The first offset that the error covers. -/
  start : Int := 0
  /-- The offset after the last one. It may lie anywhere; at least one character is marked. -/
  stop : Int := 1
  /-- Whether the source may be shown with the error in it. -/
  pointed : Bool := true
  /-- The interpreter is to blame, not the program. -/
  internal : Bool := false
  deriving DecidableEq, Repr

/-- A place in a source text: how many line feeds precede it, how many characters precede it in its
line, and the line. -/
structure Place where
  lineOffset : Nat
  column : Int
  line : List Char
  deriving DecidableEq, Repr

namespace Diagnostic

/-- The place of an offset in a text. An offset past the end counts as lying in the last line. -/
def placeOf (source : List Char) (start : Int) : Place :=
  let before := Text.upTo start source
  let lineStart := before.length - (before.reverse.takeWhile (· != '\n')).length
  { lineOffset := before.count '\n'
    column := start - lineStart
    line := (source.drop lineStart).takeWhile (· != '\n') }

def locate (d : Diagnostic) : Place :=
  placeOf d.source.toList d.start

/-- The column after the last one to be marked. The mark stays within the line, except that the first
column is always marked. -/
def markEnd (d : Diagnostic) (place : Place) : Int :=
  min (max (place.column + d.stop - d.start) (place.column + 1))
    (max place.line.length (place.column + 1))

/-- The line in which an error lies, and a mark underneath it. -/
def excerpt (style : Text.Style) (d : Diagnostic) : String :=
  let place := d.locate
  let stop := d.markEnd place
  "  " ++ String.ofList (Text.upTo place.column place.line) ++
    style.alarm (String.ofList (Text.slice place.column stop place.line)) ++
    String.ofList (Text.onward stop place.line) ++ "\n  " ++
    String.ofList (List.replicate place.column.toNat ' ') ++
    style.alarm (String.ofList ('^' :: List.replicate (stop - place.column - 1).toNat '~'))

def ofFault (fault : Fault) : Diagnostic :=
  { kind := fault.kind, message := fault.message, internal := fault.isInternal }

def ofRefusal (source : String) (refusal : Grammar.Refusal) (offset : Nat) : Diagnostic :=
  { kind := .syntaxError, message := refusal.message, source, start := offset,
    stop := offset + 1 }

def nestedTooDeeply : Diagnostic :=
  { kind := .recursion, message := "program is nested too deeply", pointed := false }

def depthExceeded : String := "maximum recursion depth exceeded"

def recursionTooDeep : Diagnostic :=
  { kind := .recursion, message := depthExceeded, pointed := false }

end Diagnostic

end CallScript
