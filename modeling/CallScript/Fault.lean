import CallScript.Term

/-!
# Faults

What can go wrong in the evaluation of a program, each cause with what its message tells. The wording
is in one place, and so is the kind under which a fault is reported.
-/

namespace CallScript

/-- The kinds of errors that reports name. -/
inductive ErrorKind where
  | error
  | syntaxError
  | reference
  | type
  | runtime
  | recursion
  deriving DecidableEq, Repr

def ErrorKind.name : ErrorKind → String
  | .error => "Error"
  | .syntaxError => "SyntaxError"
  | .reference => "ReferenceError"
  | .type => "TypeError"
  | .runtime => "RuntimeError"
  | .recursion => "RecursionError"

/-- What a native function asks of an operand. -/
inductive Operand where
  | numberOrString
  | number
  | array
  | index
  deriving DecidableEq, Repr

def Operand.wording : Operand → String
  | .numberOrString => "two numbers or two strings"
  | .number => "a number"
  | .array => "an array"
  | .index => "a number index"

/-- The causes for which an evaluation fails. -/
inductive Fault where
  /-- No frame on the chain binds the name. -/
  | undefined (name : String)
  /-- A conditional has other than three parts. -/
  | badConditional
  /-- A loop has other than two parts. -/
  | badLoop
  /-- A definition has other than a word and an expression. -/
  | badDefinition
  | missingBody
  | badParameter
  | notFunction
  | nativeArity (op : Native) (expected given : Nat)
  | closureArity (expected given : Nat)
  | badOperand (op : Native) (asked : Operand) (given : Value.Kind)
  /-- The operands of a comparison do not fit each other. -/
  | badOperands (op : Native) (left right : Value.Kind)
  | outOfRange (index : String) (length : Nat)
  /-- The node is no expression. -/
  | notExpression (quoted : String)
  deriving DecidableEq, Repr

namespace Fault

def kind : Fault → ErrorKind
  | undefined _ => .reference
  | badConditional | badLoop | badDefinition | missingBody | badParameter => .syntaxError
  | notFunction | nativeArity .. | closureArity .. | badOperand .. | badOperands .. => .type
  | outOfRange .. => .runtime
  | notExpression _ => .error

def message : Fault → String
  | undefined name => "Undefined variable: " ++ name
  | badConditional => "Bad number of args to if"
  | badLoop => "Bad number of args to while"
  | badDefinition => "Bad use of define"
  | missingBody => "Functions need a body"
  | badParameter => "Arg names must be words"
  | notFunction => "Applying a non-function"
  | nativeArity op expected given =>
    op.name ++ " expects " ++ toString expected ++ " argument" ++ (if expected = 1 then "" else "s") ++
      ", got " ++ toString given
  | closureArity expected given =>
    "Wrong number of arguments: expected " ++ toString expected ++ ", got " ++ toString given
  | badOperand op asked given => op.name ++ " expects " ++ asked.wording ++ ", got " ++ given.name
  | badOperands op left right =>
    op.name ++ " expects two numbers or two strings, got " ++ left.name ++ " and " ++ right.name
  | outOfRange index length =>
    "Index " ++ index ++ " out of range for array of length " ++ toString length
  | notExpression quoted => "cannot evaluate '" ++ quoted ++ "'"

/-- A fault that no program can be blamed for. -/
def isInternal : Fault → Bool
  | notExpression _ => true
  | _ => false

end Fault

end CallScript
