import CallScript.Store.World

/-!
# Special forms

A form gets its parts unevaluated, together with the evaluator for expressions one level down in the
frame of the call. Whatever a form is called in a program, its faults name it as the standard registry
does.
-/

namespace CallScript.Form

/-- Runs the body as long as the test does not give `false`, for at most `rounds` rounds. -/
def repeatWhile (test body : Run Value) : (rounds : Nat) → Run Unit
  | 0 => throw .outOfRounds
  | rounds + 1 => do
    if (← test).isFalse then pure ()
    else do
      let _ ← body
      repeatWhile test body rounds

/-- Evaluates expressions in turn and gives the last value, or the value given if there are none. -/
def inTurn (sub : Expr → Run Value) : (last : Value) → List Expr → Run Value
  | last, [] => pure last
  | _, e :: rest => do
    let v ← sub e
    inTurn sub v rest

def word? : Expr → Option String
  | .word name => some name
  | _ => none

def makeClosure (forms : Registry) (frame : FrameId) (params : List String) (body : Expr) :
    Run Value := do
  let id ← World.freshId
  World.note (.notice (.closureMade params))
  pure (.closure id params body frame forms)

/-- Notes that a binding will not be reached by a call, if it will not. -/
def noteShadowing (forms : Registry) (name : String) : Run Unit :=
  if (forms.lookup name).isSome then World.note (.notice (.shadowsForm name)) else pure ()

def run (rounds : Nat) (sub : Expr → Run Value) (forms : Registry) (frame : FrameId) :
    Form → List Expr → Run Value
  | conditional, [test, yes, no] => do
    if (← sub test).isFalse then sub no else sub yes
  | conditional, _ => throw (.fault .badConditional)
  | loop, [test, body] => do
    repeatWhile (sub test) (sub body) rounds
    pure (.boolean false)
  | loop, _ => throw (.fault .badLoop)
  | sequence, parts => inTurn sub (.boolean false) parts
  | definition, [.word name, e] => do
    noteShadowing forms name
    let v ← sub e
    World.define frame name v
    pure v
  | definition, _ => throw (.fault .badDefinition)
  | abstraction, parts =>
    match parts.getLast? with
    | none => throw (.fault .missingBody)
    | some body =>
      match parts.dropLast.mapM word? with
      | none => throw (.fault .badParameter)
      | some params => makeClosure forms frame params body

end CallScript.Form
