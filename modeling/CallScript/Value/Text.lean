import CallScript.Term
import CallScript.Decimal.Notation
import CallScript.Text.Quoted

/-!
# Texts of values

Three texts. `text?` is the one that programs print: strings are quoted inside arrays only, and an
integer below `10 ^ 21` has all its digits. It descends into arrays no deeper than it is allowed to.
`literalText` is how a literal stands in the text of a program, and `debugText` how a value stands in
the log.
-/

namespace CallScript

/-- The text of a number: the digits of an integer below `10 ^ 21`, and else the shortest decimal. -/
def numberText (x : Float) : String :=
  match Decimal.Dyadic.ofFloat x with
  | .nan => "NaN"
  | .infinite negative => if negative then "-Infinity" else "Infinity"
  | d =>
    match d.toInt? with
    | some n =>
      if n.natAbs < 10 ^ 21 then String.ofList (Decimal.integerText n) else Decimal.numeral x
    | none => Decimal.numeral x

/-- The text of a function: its name, or its parameters. -/
def closureText (params : List String) : String :=
  "<fun(" ++ String.intercalate ", " params ++ ")>"

namespace Value

/-- The text that programs print, or nothing if arrays are nested deeper than `depth` allows. -/
def text? : (depth : Nat) → (nested : Bool) → Value → Option String
  | 0, _, _ => none
  | depth + 1, nested, v =>
    match v with
    | number x _ => some (numberText x)
    | string text => some (if nested then "\"" ++ text ++ "\"" else text)
    | boolean b => some (if b then "true" else "false")
    | array _ elements => do
      let texts ← elements.mapM (text? depth true)
      pure ("[" ++ String.intercalate ", " texts ++ "]")
    | native op _ => some ("<builtin " ++ op.name ++ ">")
    | closure _ params _ _ _ => some (closureText params)

mutual

def debugText : Value → String
  | number x _ => Decimal.numeral x
  | string text => Text.quote text
  | boolean b => if b then "True" else "False"
  | array _ elements => "[" ++ String.intercalate ", " (debugTexts elements) ++ "]"
  | native op _ => "<builtin " ++ op.name ++ ">"
  | closure _ params _ _ _ => closureText params

def debugTexts : List Value → List String
  | [] => []
  | v :: rest => debugText v :: debugTexts rest

end

/-- The text of a literal in a program. Integers have all their digits, whatever their size. -/
def literalText : Value → String
  | number x _ =>
    match (Decimal.Dyadic.ofFloat x).toInt? with
    | some n => String.ofList (Decimal.integerText n)
    | none => Decimal.numeral x
  | string text => "\"" ++ text ++ "\""
  | boolean b => if b then "true" else "false"
  | v => v.debugText

end Value

end CallScript
