import CallScript.Decimal.Dyadic
import CallScript.Decimal.Nearest
import CallScript.Store.World
import CallScript.Value.Equality
import CallScript.Value.Text

/-!
# Native functions

Numbers are doubles throughout: a division by zero gives an infinity, or NaN for zero and NaN. A
native function refuses a wrong number of arguments before it looks at any of them, and a wrong type
before it looks at what the argument holds. Nothing is converted.
-/

namespace CallScript.Native

def expectNumber (op : Native) (asked : Operand) : Value → Run Float
  | .number x _ => pure x
  | v => throw (.fault (.badOperand op asked v.kind))

def expectArray (op : Native) : Value → Run (List Value)
  | .array _ elements => pure elements
  | v => throw (.fault (.badOperand op .array v.kind))

def arithmetic (op : Native) (asked : Operand) (compute : Float → Float → Run Value) (a b : Value) :
    Run Value := do
  let x ← expectNumber op asked a
  let y ← expectNumber op asked b
  compute x y

/-- The quotient. What a division by zero gives is not a new object, even if it is NaN. -/
def quotient (x y : Float) : Run Value :=
  if y == 0 then pure (.number (x / y) 0) else World.newNumber (x / y)

/-- A comparison of two numbers or of two strings, the latter by code points. -/
def comparison (op : Native) (numbers : Float → Float → Bool) (strings : String → String → Bool) :
    Value → Value → Run Value
  | .number x _, .number y _ => pure (.boolean (numbers x y))
  | .string s, .string t => pure (.boolean (strings s t))
  | a, b => throw (.fault (.badOperands op a.kind b.kind))

/-- The place in an array of `length` elements that a number names, if it names one. -/
def index? (length : Nat) (x : Float) : Option Nat :=
  match (Decimal.Dyadic.ofFloat x).toInt? with
  | some (.ofNat n) => if n < length then some n else none
  | _ => none

def elementAt (elements : List Value) (x : Float) : Run Value :=
  match (index? elements.length x).bind (elements[·]?) with
  | some v => pure v
  | none => throw (.fault (.outOfRange (numberText x) elements.length))

/-- Writes the text of a value, if there is somewhere to write to. -/
def printValue (depth : Nat) (writes : Bool) (v : Value) : Run Value := do
  if writes then
    match v.text? depth false with
    | some text => World.note (.line text)
    | none => throw .tooDeep
  pure v

/-- Calls a native function. Arrays are looked into no deeper than `depth`. -/
def call (depth : Nat) : Native → List Value → Run Value
  | add, [.string s, .string t] => pure (.string (s ++ t))
  | add, [a, b] => arithmetic add .numberOrString (fun x y => World.newNumber (x + y)) a b
  | subtract, [a, b] => arithmetic subtract .number (fun x y => World.newNumber (x - y)) a b
  | multiply, [a, b] => arithmetic multiply .number (fun x y => World.newNumber (x * y)) a b
  | divide, [a, b] => arithmetic divide .number quotient a b
  | equal, [a, b] =>
    match Value.equals? depth a b with
    | some answer => pure (.boolean answer)
    | none => throw .tooDeep
  | less, [a, b] => comparison less (fun x y => x < y) (fun s t => s < t) a b
  | greater, [a, b] => comparison greater (fun x y => y < x) (fun s t => t < s) a b
  | print writes, [v] => printValue depth writes v
  | array, elements => World.newArray elements
  | length, [v] => do
    let elements ← expectArray length v
    pure (.number (Decimal.nearest elements.length) 0)
  | element, [v, i] => do
    let elements ← expectArray element v
    elementAt elements (← expectNumber element .index i)
  | op, args => throw (.fault (.nativeArity op (op.arity.getD 0) args.length))

end CallScript.Native
