import CallScript.Text.Character
import CallScript.Text.Quoted

/-!
# Options of the command line

The command line takes two switches without a value, one option with a value, and one file. Options
may be shortened to an unambiguous part of their long name, joined behind one dash, and given a value
in the same argument, with an equals sign right behind the first name or without one. Everything
behind `--` is no option, nor is a lone dash, a negative number, or an argument with a space that is no
known option.
-/

namespace CallScript.CommandLine

inductive Switch where
  | help
  | eval
  | verbose
  deriving DecidableEq, Repr

/-- Every name of every option, in the order in which they are tried. -/
def switchNames : List (String × Switch) :=
  [("-h", .help), ("--help", .help), ("-e", .eval), ("--eval", .eval), ("-v", .verbose),
    ("--verbose", .verbose)]

def Switch.display (switch : Switch) : String :=
  String.intercalate "/" ((switchNames.filter (·.2 = switch)).map Prod.fst)

def Switch.takesValue : Switch → Bool
  | .eval => true
  | _ => false

inductive Argument where
  | plain (text : String)
  | separator
  /-- An option, under a short name or a long one, and what is attached to it. -/
  | option (switch : Switch) (short : Bool) (attached : Option (List Char))
  | unknown (text : String)
  deriving DecidableEq, Repr

/-- Why the command line is not followed. -/
inductive Stop where
  | help
  | ambiguous (text : String) (candidates : List String)
  | missingValue (switch : Switch)
  | unexpectedValue (switch : Switch) (text : List Char)
  | unrecognized (texts : List String)
  deriving DecidableEq, Repr

def Stop.message : Stop → String
  | .help => ""
  | .ambiguous text candidates =>
    "ambiguous option: " ++ text ++ " could match " ++ String.intercalate ", " candidates
  | .missingValue switch => "argument " ++ switch.display ++ ": expected one argument"
  | .unexpectedValue switch text =>
    "argument " ++ switch.display ++ ": ignored explicit argument " ++
      String.ofList (Text.quoted text)
  | .unrecognized texts => "unrecognized arguments: " ++ String.intercalate " " texts

def dropLineEnd (cs : List Char) : List Char :=
  if cs.getLast? = some '\n' then cs.dropLast else cs

/-- A minus sign, digits of any script, and perhaps a point among them with digits after it. A line
feed may follow. -/
def isNegativeNumber (cs : List Char) : Bool :=
  match dropLineEnd cs with
  | '-' :: digits =>
    match digits.dropWhile Text.isDecimalDigit with
    | [] => !digits.isEmpty
    | '.' :: fraction => !fraction.isEmpty && fraction.all Text.isDecimalDigit
    | _ => false
  | _ => false

def splitAtEquals (cs : List Char) : List Char × Option (List Char) :=
  match cs.dropWhile (· != '=') with
  | [] => (cs, none)
  | _ :: value => (cs.takeWhile (· != '='), some value)

/-- The options that an argument behind a dash may be short for. -/
def candidates (cs : List Char) : List (String × Argument) :=
  match cs with
  | '-' :: '-' :: _ =>
    let (front, attached) := splitAtEquals cs
    switchNames.filterMap fun (name, switch) =>
      if front.isPrefixOf name.toList then some (name, .option switch false attached) else none
  | _ =>
    switchNames.filterMap fun (name, switch) =>
      if name.toList = cs.take 2 then some (name, .option switch true (some (cs.drop 2)))
      else if cs.isPrefixOf name.toList then some (name, .option switch false none)
      else none

def named (cs : List Char) (attached : Option (List Char)) : Option Argument :=
  (switchNames.find? (·.1.toList = cs)).map fun (name, switch) =>
    .option switch (name.length = 2) attached

/-- What an argument is that does not stand behind `--`. -/
def classify (text : String) : Except Stop Argument :=
  let cs := text.toList
  match cs with
  | '-' :: _ :: _ =>
    let (front, attached) := splitAtEquals cs
    match named cs none <|> attached.bind fun value => named front (some value) with
    | some argument => .ok argument
    | none =>
      match candidates cs with
      | [(_, argument)] => .ok argument
      | [] =>
        .ok (if isNegativeNumber cs || cs.contains ' ' then .plain text else .unknown text)
      | several => .error (.ambiguous text (several.map Prod.fst))
  | _ => .ok (.plain text)

def classifyAll : List String → Except Stop (List Argument)
  | [] => .ok []
  | text :: rest =>
    if text = "--" then .ok (.separator :: rest.map .plain)
    else do
      let argument ← classify text
      pure (argument :: (← classifyAll rest))

/-- What the command line asks for. The text to evaluate is lacking if a separator was attached to its
option. -/
structure Settings where
  eval : Option (Option String)
  file : Option String
  verbose : Bool
  deriving DecidableEq, Repr

/-- Reading of the command line: the settings so far, and the arguments that have no meaning. -/
structure Progress where
  settings : Settings
  extras : List String
  deriving DecidableEq, Repr

/-- What one argument with an option in it comes to: switches in turn and, at its end, a value for an
option or the need of one. -/
structure Cluster where
  switches : List Switch
  value : Option (List Char)
  needsValue : Bool
  deriving DecidableEq, Repr

def Switch.alone (switch : Switch) : Cluster :=
  if switch.takesValue then ⟨[], none, true⟩ else ⟨[switch], none, false⟩

/-- Takes a cluster of options behind one dash apart, given what is attached to the first of them. A
switch takes no value, so what is attached to it must begin with the name of another option. -/
def cluster (switch : Switch) (short : Bool) : List Char → Except Stop Cluster
  | [] =>
    if switch.takesValue then .ok ⟨[], some [], false⟩ else .error (.unexpectedValue switch [])
  | c :: rest =>
    if switch.takesValue then .ok ⟨[], some (c :: rest), false⟩
    else if !short then .error (.unexpectedValue switch (c :: rest))
    else
      match switchNames.find? (·.1.toList = ['-', c]) with
      | none => .error (.unexpectedValue switch (c :: rest))
      | some (_, next) => do
        let more ← if rest.isEmpty then .ok next.alone else cluster next true rest
        pure { more with switches := switch :: more.switches }

def setSwitches (settings : Settings) : List Switch → Except Stop Settings
  | [] => .ok settings
  | .help :: _ => .error .help
  | .verbose :: rest => setSwitches { settings with verbose := true } rest
  | .eval :: rest => setSwitches settings rest

def clusterOf (switch : Switch) (short : Bool) : Option (List Char) → Except Stop Cluster
  | none => .ok switch.alone
  | some attached => cluster switch short attached

/-- The text that is attached to an option. A separator counts as none. -/
def attachedText (value : List Char) : Option String :=
  if value = ['-', '-'] then none else some (String.ofList value)

/-- Reads the arguments in turn. The first plain one is the file, and a separator next to it has no
meaning of its own. -/
def consume : List Argument → Progress → Except Stop Progress
  | [], progress => .ok progress
  | .plain text :: rest, ⟨settings, extras⟩ =>
    match settings.file, rest with
    | none, .separator :: rest => consume rest ⟨{ settings with file := some text }, extras⟩
    | none, rest => consume rest ⟨{ settings with file := some text }, extras⟩
    | some _, rest => consume rest ⟨settings, extras ++ [text]⟩
  | .separator :: rest, ⟨settings, extras⟩ =>
    if settings.file.isSome then consume rest ⟨settings, extras ++ ["--"]⟩
    else consume rest ⟨settings, extras⟩
  | .unknown text :: rest, ⟨settings, extras⟩ => consume rest ⟨settings, extras ++ [text]⟩
  | .option switch short attached :: rest, ⟨settings, extras⟩ => do
    let cluster ← clusterOf switch short attached
    match cluster.needsValue, rest with
    | true, .plain text :: rest =>
      let settings ← setSwitches settings cluster.switches
      consume rest ⟨{ settings with eval := some (some text) }, extras⟩
    | true, _ => .error (.missingValue .eval)
    | false, rest =>
      let settings ← setSwitches settings cluster.switches
      consume rest
        ⟨match cluster.value with
          | some value => { settings with eval := some (attachedText value) }
          | none => settings, extras⟩

def parse (args : List String) : Except Stop Settings := do
  let arguments ← classifyAll args
  let progress ← consume arguments ⟨⟨none, none, false⟩, []⟩
  if progress.extras.isEmpty then pure progress.settings
  else throw (.unrecognized progress.extras)

end CallScript.CommandLine
