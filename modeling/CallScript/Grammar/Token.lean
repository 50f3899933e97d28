import CallScript.Decimal.Nearest
import CallScript.Term
import CallScript.Text.Blank

/-!
# Tokens

An expression begins with a string, a number or a word, tried in this order. A string runs from one
double quote to the next and has no escapes. A number is a run of ASCII digits that no ASCII letter,
digit or underscore follows, so that `12ab` is a word. A word is a run of characters other than
blanks, parentheses, commas and double quotes.
-/

namespace CallScript.Grammar

open Text

def isWordChar (c : Char) : Bool :=
  !isBlank c && c != '(' && c != ')' && c != ',' && c != '"'

/-- An ASCII letter, digit or underscore, which must not follow the digits of a number. -/
def joinsDigits (c : Char) : Bool :=
  c.isAlphanum || c == '_'

/-- An expression read off the front of a text, and what is left of the text. -/
structure Read (cs : List Char) where
  expr : Expr
  rest : List Char
  shorter : rest.length < cs.length

def digitsValue (digits : List Char) : Nat :=
  digits.foldl (fun n c => 10 * n + (c.toNat - 0x30)) 0

/-- The double nearest to the number, or infinity for a number out of range. -/
def numberLiteral (digits : List Char) : Expr :=
  .literal (.number (Decimal.nearest (digitsValue digits)) 0)

def stringLiteral (content : List Char) : Expr :=
  .literal (.string (String.ofList content))

theorem length_dropWhile_cons_lt {p : Char → Bool} {c : Char} {cs : List Char} (h : p c = true) :
    ((c :: cs).dropWhile p).length < (c :: cs).length := by
  rw [List.dropWhile_cons_of_pos h]
  exact Nat.lt_succ_of_le (List.dropWhile_sublist _).length_le

def string? (cs : List Char) : Option (Read ('"' :: cs)) :=
  match h : cs.dropWhile (· != '"') with
  | [] => none
  | _ :: rest => some
    { expr := stringLiteral (cs.takeWhile (· != '"'))
      rest
      shorter := by
        have := (List.dropWhile_sublist (· != '"') (l := cs)).length_le
        rw [h] at this
        simp only [List.length_cons] at *
        omega }

def number? (cs : List Char) : Option (Read cs) :=
  match cs with
  | [] => none
  | c :: more =>
    if h : c.isDigit then
      let rest := (c :: more).dropWhile Char.isDigit
      if rest.head?.any joinsDigits then none
      else some
        { expr := numberLiteral ((c :: more).takeWhile Char.isDigit)
          rest
          shorter := length_dropWhile_cons_lt h }
    else none

def word? (cs : List Char) : Option (Read cs) :=
  match cs with
  | [] => none
  | c :: more =>
    if h : isWordChar c then some
      { expr := .word (String.ofList ((c :: more).takeWhile isWordChar))
        rest := (c :: more).dropWhile isWordChar
        shorter := length_dropWhile_cons_lt h }
    else none

def primary? (cs : List Char) : Option (Read cs) :=
  match cs with
  | '"' :: content => string? content
  | cs => number? cs <|> word? cs

end CallScript.Grammar
