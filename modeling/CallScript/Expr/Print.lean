import CallScript.Value.Text

/-!
# Texts of expressions

`chars` writes an expression as a program: a call is its operator, then its arguments between
parentheses, with a comma and a space between two of them. `debugText` names the class of every node
and stands in messages about a tree. `outline` draws the tree, one node a line, the nodes below it
indented by four spaces.
-/

namespace CallScript.Expr

mutual

def chars : Expr → List Char
  | literal v => v.literalText.toList
  | word name => name.toList
  | apply operator args => operator.chars ++ '(' :: (argChars args ++ [')'])
  | foreign _ plain => plain.toList

def argChars : List Expr → List Char
  | [] => []
  | e :: rest => e.chars ++ moreArgChars rest

def moreArgChars : List Expr → List Char
  | [] => []
  | e :: rest => ',' :: ' ' :: (e.chars ++ moreArgChars rest)

end

def text (e : Expr) : String :=
  String.ofList e.chars

mutual

/-- The text of a tree that names the class of every node. -/
def debugText : Expr → String
  | literal v => "Value(" ++ v.debugText ++ ")"
  | word name => "Word(" ++ Text.quote name ++ ")"
  | apply operator args =>
    "Apply(" ++ operator.debugText ++ ", [" ++ String.intercalate ", " (debugTexts args) ++ "])"
  | foreign quoted _ => quoted

def debugTexts : List Expr → List String
  | [] => []
  | e :: rest => e.debugText :: debugTexts rest

end

/-- The space before a node `level` levels down. There is none at a level below zero. -/
def indentation (level : Int) : List Char :=
  List.replicate (4 * level).toNat ' '

/-- The class of a node and its text, with the bracket of a node left open. -/
def header (e : Expr) : List Char :=
  e.className.toList ++ "(expr='".toList ++ e.chars ++ ['\'']

mutual

/-- The drawing of a tree whose root stands `level` levels down. -/
def outlineChars (level : Int) : Expr → List Char
  | apply operator args =>
    indentation level ++ header (apply operator args) ++ ", nodes=[\n".toList ++
      outlineChars (level + 1) operator ++ moreOutlineChars (level + 1) args ++
      '\n' :: (indentation level ++ "])".toList)
  | e => indentation level ++ header e ++ [')']

/-- The drawings of the nodes after the first one, each behind a comma and on lines of its own. -/
def moreOutlineChars (level : Int) : List Expr → List Char
  | [] => []
  | e :: rest => ',' :: '\n' :: (outlineChars level e ++ moreOutlineChars level rest)

end

def outline (level : Int) (e : Expr) : String :=
  String.ofList (outlineChars level e)

end CallScript.Expr
