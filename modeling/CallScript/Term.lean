/-!
# Programs and values

A program is one expression: a literal, a word, or a call of an expression with arguments. Evaluation
turns expressions into values, and the two refer to each other: a literal holds a value, and a
function made by a program holds the expression that is its body.

Arrays and functions are objects: an array may be told apart from another one with the same elements,
and a function equals itself alone, so each carries the number it got when it was made. So does a
number that is not a number (NaN), since a collection counts such a number as equal to itself although
it is unequal to every number. Numbers of this kind that come from a division by zero share the
number `0`; for every other number the mark is `0` too and means nothing.
-/

namespace CallScript

/-- The special forms, which get their arguments unevaluated. -/
inductive Form where
  | conditional
  | loop
  | sequence
  | definition
  | abstraction
  deriving DecidableEq, Repr

/-- The operator names that stand for special forms. -/
abbrev Registry := List (String × Form)

/-- The native functions. `print` writes a line only where the program has somewhere to write to. -/
inductive Native where
  | add
  | subtract
  | multiply
  | divide
  | equal
  | less
  | greater
  | print (writes : Bool)
  | array
  | length
  | element
  deriving DecidableEq, Repr

abbrev FrameId := Nat

mutual

/-- Expressions. A `foreign` node is none of the language's own: whoever builds trees by hand may put
anything into them, and of such a thing only its two texts are known. -/
inductive Expr where
  | literal (value : Value)
  | word (name : String)
  | apply (operator : Expr) (args : List Expr)
  | foreign (quoted plain : String)

/-- Values. A native function is identified by its name and the root frame it belongs to, a function
made by a program by its number. The latter keeps the frame it was made in and the special forms that
its body is read with. -/
inductive Value where
  | number (x : Float) (mark : Nat)
  | string (text : String)
  | boolean (b : Bool)
  | array (id : Nat) (elements : List Value)
  | native (op : Native) (home : FrameId)
  | closure (id : Nat) (params : List String) (body : Expr) (frame : FrameId) (forms : Registry)

end

instance : Inhabited Value := ⟨.boolean false⟩
instance : Inhabited Expr := ⟨.word ""⟩

/-- The five forms under the names that programs know them by. -/
def Registry.standard : Registry :=
  [("if", .conditional), ("while", .loop), ("do", .sequence), ("define", .definition),
    ("fun", .abstraction)]

namespace Native

def name : Native → String
  | add => "+"
  | subtract => "-"
  | multiply => "*"
  | divide => "/"
  | equal => "=="
  | less => "<"
  | greater => ">"
  | print _ => "print"
  | array => "array"
  | length => "length"
  | element => "element"

/-- The number of arguments, unless any number will do. -/
def arity : Native → Option Nat
  | print _ => some 1
  | array => none
  | length => some 1
  | _ => some 2

def all (writes : Bool) : List Native :=
  [add, subtract, multiply, divide, equal, less, greater, print writes, array, length, element]

end Native

namespace Value

/-- The types that programs tell apart. -/
inductive Kind where
  | number
  | string
  | boolean
  | array
  | function
  deriving DecidableEq, Repr

def Kind.name : Kind → String
  | .number => "number"
  | .string => "string"
  | .boolean => "boolean"
  | .array => "array"
  | .function => "function"

def kind : Value → Kind
  | .number .. => .number
  | .string _ => .string
  | .boolean _ => .boolean
  | .array .. => .array
  | .native .. => .function
  | .closure .. => .function

/-- Only the boolean `false` counts as false. -/
def isFalse : Value → Bool
  | .boolean b => !b
  | _ => false

mutual

def nesting : Value → Nat
  | array _ elements => nestingAll elements + 1
  | _ => 0

def nestingAll : List Value → Nat
  | [] => 0
  | v :: rest => max v.nesting (nestingAll rest)

end

/-- Arrays are nested in it at most `room` deep. The first array that is too deep decides, so that
arrays used in many places cost no more than the way to it. -/
def fits : (room : Nat) → Value → Bool
  | 0, array .. => false
  | room + 1, array _ elements => elements.all (fits room)
  | _, _ => true

end Value

namespace Expr

def className : Expr → String
  | literal _ => "Value"
  | word _ => "Word"
  | apply .. => "Apply"
  | foreign .. => "Foreign"

/-- The nodes right below, in the order of the text. -/
def children : Expr → List Expr
  | apply operator args => operator :: args
  | _ => []

/-- From the root, goes on to the first argument while there is one; counts the steps. -/
def firstLeaf : Expr → Nat × Expr
  | apply _ (arg :: _) => let (steps, leaf) := firstLeaf arg; (steps + 1, leaf)
  | e => (0, e)

/-- It has at most `room` levels, those of the arrays in its literals included. -/
def fits : (room : Nat) → Expr → Bool
  | 0, _ => false
  | room + 1, apply operator args => operator.fits room && args.all (fits room)
  | room + 1, literal v => v.fits room
  | _ + 1, _ => true

end Expr

end CallScript
