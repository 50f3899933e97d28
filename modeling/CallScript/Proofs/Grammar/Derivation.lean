import CallScript.Grammar.Token

/-!
# The grammar of programs

An expression is a primary, or an expression followed by the argument list of a call; so calls
associate to the left. Each relation says what stands at the front of a text and what is left behind
it: `Expression cs e rest` reads "`cs` begins with the expression `e`, and `rest` follows". A
derivation may end a chain of calls wherever it likes. That reading must not do so is a consequence,
because nothing but a comma, a closing parenthesis or the end of the program follows an expression.

Which primary stands at a place depends on the text behind it: a run of digits or of word characters
ends where it cannot be longer, and a word stands only where no number does.
-/

namespace CallScript.Grammar

open Text

/-- A number in digits: a run of ASCII digits, and behind it no ASCII letter, digit or underscore. -/
structure Numeral (cs digits rest : List Char) : Prop where
  eq : cs = digits ++ rest
  nonempty : digits ≠ []
  digit : ∀ c ∈ digits, c.isDigit = true
  boundary : rest.head?.any joinsDigits = false

/-- A string, a number or a word, in this order of preference. No word begins with a double quote, so
a string needs no condition to come first. -/
inductive Primary : List Char → Expr → List Char → Prop where
  | string {content rest : List Char} (closed : '"' ∉ content) :
      Primary ('"' :: (content ++ '"' :: rest)) (stringLiteral content) rest
  | number {cs digits rest : List Char} (numeral : Numeral cs digits rest) :
      Primary cs (numberLiteral digits) rest
  | word {name rest : List Char} (noNumber : ∀ digits behind, ¬ Numeral (name ++ rest) digits behind)
      (nonempty : name ≠ []) (char : ∀ c ∈ name, isWordChar c = true)
      (longest : rest.head?.any isWordChar = false) :
      Primary (name ++ rest) (.word (String.ofList name)) rest

mutual

/-- An expression at the front of a text, blanks before it included. -/
inductive Expression : List Char → Expr → List Char → Prop where
  | primary {blanks cs rest : List Char} {e : Expr} (blank : isBlankText blanks = true)
      (first : Primary cs e rest) : Expression (blanks ++ cs) e rest
  | call {cs blanks inner rest : List Char} {operator : Expr} {args : List Expr}
      (before : Expression cs operator (blanks ++ '(' :: inner)) (blank : isBlankText blanks = true)
      (list : Arguments inner args rest) : Expression cs (.apply operator args) rest

/-- The arguments of a call, from behind the opening parenthesis to behind the closing one. -/
inductive Arguments : List Char → List Expr → List Char → Prop where
  | empty {blanks rest : List Char} (blank : isBlankText blanks = true) :
      Arguments (blanks ++ ')' :: rest) [] rest
  | nonempty {cs behind rest : List Char} {e : Expr} {es : List Expr}
      (first : Expression cs e behind) (more : MoreArguments behind es rest) :
      Arguments cs (e :: es) rest

/-- The arguments behind the first one, each after a comma. One more comma may follow the last. -/
inductive MoreArguments : List Char → List Expr → List Char → Prop where
  | close {blanks rest : List Char} (blank : isBlankText blanks = true) :
      MoreArguments (blanks ++ ')' :: rest) [] rest
  | closeAfterComma {blanks blanks' rest : List Char} (blank : isBlankText blanks = true)
      (blank' : isBlankText blanks' = true) :
      MoreArguments (blanks ++ ',' :: (blanks' ++ ')' :: rest)) [] rest
  | next {blanks cs behind rest : List Char} {e : Expr} {es : List Expr}
      (blank : isBlankText blanks = true) (first : Expression cs e behind)
      (more : MoreArguments behind es rest) : MoreArguments (blanks ++ ',' :: cs) (e :: es) rest

end

/-- A program: one expression, and nothing but blanks behind it. -/
def Program (cs : List Char) (e : Expr) : Prop :=
  ∃ rest, Expression cs e rest ∧ isBlankText rest = true

end CallScript.Grammar
