import CallScript.Text.Blank

/-!
# Lines of a shell

What a line typed into the shell asks for. The line is trimmed. A question mark in front asks for
help, an exclamation mark makes the line an entry. Otherwise the longest run of ASCII letters, digits
and underscores in front may be the name of a command, whatever follows it; all other lines are
entries.

An entry is continued on the next line if a string in it lacks its closing quote, or if more parentheses
are opened than closed outside strings.
-/

namespace CallScript.Shell

inductive Command where
  | blank
  | ast (text : List Char)
  | help
  | exit
  | endOfInput
  | entry (line : List Char)
  deriving DecidableEq, Repr

def isNameChar (c : Char) : Bool :=
  c.isAlphanum || c == '_'

namespace Command

/-- What a trimmed line asks for that is not blank and has no mark in front. -/
def ofName (line : List Char) : Command :=
  let name := String.ofList (line.takeWhile isNameChar)
  if name = "ast" then ast (Text.trim (line.dropWhile isNameChar))
  else if name = "help" then help
  else if name = "exit" then exit
  else if name = "EOF" then endOfInput
  else entry line

def ofLine (line : List Char) : Command :=
  match Text.trim line with
  | [] => blank
  | '?' :: _ => help
  | '!' :: rest => entry ('!' :: rest)
  | line => ofName line

end Command

/-- Whether a text leaves something open, given whether it begins inside a string and how many more
parentheses were opened than closed before it. -/
def leavesOpen : (inside : Bool) → (balance : Int) → List Char → Bool
  | inside, balance, [] => inside || decide (0 < balance)
  | inside, balance, '"' :: rest => leavesOpen (!inside) balance rest
  | true, balance, _ :: rest => leavesOpen true balance rest
  | false, balance, '(' :: rest => leavesOpen false (balance + 1) rest
  | false, balance, ')' :: rest => leavesOpen false (balance - 1) rest
  | false, balance, _ :: rest => leavesOpen false balance rest

/-- The text without blanks at its end, and whether the next line continues it. -/
def preprocess (text : String) : String × Bool :=
  let kept := Text.trimEnd text.toList
  (String.ofList kept, leavesOpen false 0 kept)

end CallScript.Shell
