import CallScript.Fault
import CallScript.Store.Frame

/-!
# Worlds

Everything that an evaluation can change: the frames, the supply of numbers for new objects, and the
record of what happened. The record holds the lines that programs wrote, what the user was shown, the
reports of errors, and notices for the log, in the order in which they came.
-/

namespace CallScript

inductive Notice where
  /-- A name was bound that is also the name of a special form. -/
  | shadowsForm (name : String)
  | closureMade (params : List String)
  | queued (path : String) (line : Int) (program : Expr)
  | evaluated (path : String) (line : Int) (value : Value)

def Notice.fits (room : Nat) : Notice → Bool
  | queued _ _ program => program.fits room
  | evaluated _ _ value => value.fits room
  | _ => true

def shadowWarning (name : String) : String :=
  "'" ++ name ++ "' is a special form: the new binding cannot be called by that name"

inductive Event where
  /-- A line written by a program. -/
  | line (text : String)
  /-- Shown to the user, line ends included. -/
  | answer (text : String)
  /-- The report of an error, line ends included. -/
  | report (text : String)
  | notice (notice : Notice)

structure World where
  frames : Array Frame
  /-- The number that the next new object gets. -/
  nextId : Nat
  events : Array Event

/-- Nothing has happened, and the number `0` is kept back. -/
def World.empty : World := ⟨#[], 1, #[]⟩

instance : Inhabited World := ⟨World.empty⟩

/-- Why an evaluation ends without a value: a fault of the program, or one of the two limits. -/
inductive Halt where
  | fault (fault : Fault)
  | tooDeep
  | outOfRounds
  deriving DecidableEq, Repr

/-- Computations that change a world and may end early. What was done before such an end stays
done. -/
abbrev Run := EStateM Halt World

namespace World

def note (event : Event) : Run Unit :=
  modify fun w => { w with events := w.events.push event }

def freshId : Run Nat :=
  modifyGet fun w => (w.nextId, { w with nextId := w.nextId + 1 })

def addFrame (bindings : Bindings) (parent : Option FrameId) (w : World) : FrameId × World :=
  (w.frames.size, { w with frames := w.frames.push ⟨bindings, parent⟩ })

/-- The bindings of a root frame that stands at `home`: the two booleans and the native functions. -/
def rootBindings (writes : Bool) (home : FrameId) : Bindings :=
  ("true", .boolean true) :: ("false", .boolean false) ::
    (Native.all writes).map fun op => (op.name, Value.native op home)

def addRoot (writes : Bool) (w : World) : FrameId × World :=
  w.addFrame (rootBindings writes w.frames.size) none

/-- Binds a name in a frame itself, whatever the frames around it bind. -/
def define (id : FrameId) (name : String) (value : Value) : Run Unit :=
  modify fun w =>
    { w with frames := w.frames.modify id fun frame =>
        { frame with bindings := Bindings.bind name value frame.bindings } }

def fetch (id : FrameId) (name : String) : Run Value := do
  match lookup (← get).frames name id with
  | some value => pure value
  | none => throw (.fault (.undefined name))

/-- The number that a computation gave. One that is not a number is a new object each time. -/
def newNumber (x : Float) : Run Value := do
  if x.isNaN then
    let id ← freshId
    pure (.number x id)
  else pure (.number x 0)

def newArray (elements : List Value) : Run Value := do
  let id ← freshId
  pure (.array id elements)

def lines (events : Array Event) : Array String :=
  events.filterMap fun
    | .line text => some text
    | _ => none

def warnings (events : Array Event) : Array String :=
  events.filterMap fun
    | .notice (.shadowsForm name) => some (shadowWarning name)
    | _ => none

end World

end CallScript
