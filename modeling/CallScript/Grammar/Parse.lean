import CallScript.Grammar.Token

/-!
# Parsing

An expression is a primary followed by any number of argument lists, each of which makes a call of
what stands before it: `f(a)(b)` is a call of `f(a)`. Arguments are separated by commas, a comma may
follow the last one, and blanks may stand between any two tokens. A program is one expression.

A refusal keeps the text that was left at that point, from which the offset follows. Expressions may
be nested in argument lists only as deep as the reader is allowed to go.
-/

namespace CallScript.Grammar

open Text

inductive Refusal where
  | unexpected
  | expectedSeparator
  | trailing
  deriving DecidableEq, Repr

def Refusal.message : Refusal → String
  | unexpected => "Unexpected syntax"
  | expectedSeparator => "Expected ',' or ')'"
  | trailing => "Unexpected text after program"

/-- How reading ends without an expression. A refusal keeps the rest of the text. -/
inductive Failure where
  | refused (refusal : Refusal) (rest : List Char)
  | tooDeep
  deriving DecidableEq, Repr

abbrev Reader := (cs : List Char) → Except Failure (Read cs)

/-- An argument list read off the front of a text, behind its opening parenthesis. -/
structure ReadArgs (cs : List Char) where
  args : List Expr
  rest : List Char
  shorter : rest.length < cs.length

theorem length_lt_of_skipBlanks {cs rest : List Char} {c : Char}
    (h : skipBlanks cs = c :: rest) : rest.length < cs.length := by
  have := skipBlanks_length_le cs
  rw [h, List.length_cons] at this
  omega

def arguments (read : Reader) (cs : List Char) : Except Failure (ReadArgs cs) :=
  match hc : skipBlanks cs with
  | ')' :: rest => .ok ⟨[], rest, length_lt_of_skipBlanks hc⟩
  | _ =>
    match read (skipBlanks cs) with
    | .error failure => .error failure
    | .ok arg =>
      have harg : arg.rest.length < cs.length :=
        Nat.lt_of_lt_of_le arg.shorter (skipBlanks_length_le cs)
      match ha : skipBlanks arg.rest with
      | ')' :: rest => .ok ⟨[arg.expr], rest, Nat.lt_trans (length_lt_of_skipBlanks ha) harg⟩
      | ',' :: rest =>
        have hrest : rest.length < cs.length :=
          Nat.lt_trans (length_lt_of_skipBlanks ha) harg
        match arguments read rest with
        | .error failure => .error failure
        | .ok more => .ok ⟨arg.expr :: more.args, more.rest, Nat.lt_trans more.shorter hrest⟩
      | other => .error (.refused .expectedSeparator other)
termination_by cs.length

/-- A call read off the front of a text behind its operator, and what is left, blanks skipped. -/
structure ReadCalls (cs : List Char) where
  expr : Expr
  rest : List Char
  notLonger : rest.length ≤ cs.length

/-- Makes calls of an expression for every argument list that follows it. -/
def calls (read : Reader) (expr : Expr) (cs : List Char) : Except Failure (ReadCalls cs) :=
  match hc : skipBlanks cs with
  | '(' :: inner =>
    match arguments read inner with
    | .error failure => .error failure
    | .ok list =>
      have hlist : list.rest.length < cs.length :=
        Nat.lt_trans list.shorter (length_lt_of_skipBlanks hc)
      match calls read (.apply expr list.args) list.rest with
      | .error failure => .error failure
      | .ok call => .ok ⟨call.expr, call.rest, Nat.le_of_lt (Nat.lt_of_le_of_lt call.notLonger hlist)⟩
  | rest => .ok ⟨expr, rest, hc ▸ skipBlanks_length_le cs⟩
termination_by cs.length

/-- Reads an expression in which argument lists are nested less than `depth` deep. -/
def expression : (depth : Nat) → Reader
  | 0, _ => .error .tooDeep
  | depth + 1, cs =>
    match primary? (skipBlanks cs) with
    | none => .error (.refused .unexpected (skipBlanks cs))
    | some first =>
      match calls (expression depth) first.expr first.rest with
      | .error failure => .error failure
      | .ok call => .ok
        ⟨call.expr, call.rest,
          Nat.lt_of_le_of_lt call.notLonger
            (Nat.lt_of_lt_of_le first.shorter (skipBlanks_length_le cs))⟩

/-- Reads a program: an expression with nothing but blanks after it. -/
def program (depth : Nat) (cs : List Char) : Except Failure Expr :=
  match expression depth cs with
  | .error failure => .error failure
  | .ok read =>
    match skipBlanks read.rest with
    | [] => .ok read.expr
    | rest => .error (.refused .trailing rest)

/-- How parsing a text ends without a tree. A refusal names the offset of what is refused. -/
inductive ParseError where
  | refused (refusal : Refusal) (offset : Nat)
  | tooDeep
  deriving DecidableEq, Repr

def parse (depth : Nat) (text : String) : Except ParseError Expr :=
  let cs := text.toList
  match program depth cs with
  | .ok expr => .ok expr
  | .error .tooDeep => .error .tooDeep
  | .error (.refused refusal rest) => .error (.refused refusal (cs.length - rest.length))

end CallScript.Grammar
