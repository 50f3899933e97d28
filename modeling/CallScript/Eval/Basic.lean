import CallScript.Eval.Form
import CallScript.Eval.Native

/-!
# Evaluation

An expression is evaluated in a frame, with a registry of special forms. A literal gives its value and
a word what it means in the frame. A call whose operator is a word in the registry runs that form,
whatever the frame binds. Any other call evaluates its operator, which must give a function, then its
arguments from left to right, then applies the function. A function made by a program runs its body in
a new frame inside the one it was made in.

Every nested evaluation uses up one level of `depth`, and each loop has `rounds` rounds. Both limits
end an evaluation as a fault does, so none of them can be mistaken for a value.
-/

namespace CallScript

/-- Applies a function to its arguments. `sub` evaluates one level down, and native functions look no
deeper than `depth`. -/
def applyValue (depth : Nat) (sub : Registry → FrameId → Expr → Run Value) :
    Value → List Value → Run Value
  | .native op _, args => op.call depth args
  | .closure _ params body frame forms, args => do
    if args.length ≠ params.length then
      throw (.fault (.closureArity params.length args.length))
    let inner ← modifyGet (World.addFrame (Bindings.ofPairs (params.zip args)) (some frame))
    sub forms inner body
  | _, _ => throw (.fault .notFunction)

def eval (rounds : Nat) : (depth : Nat) → Registry → FrameId → Expr → Run Value
  | 0, _, _, _ => throw .tooDeep
  | depth + 1, forms, frame, e =>
    match e with
    | .literal v => pure v
    | .word name => World.fetch frame name
    | .foreign quoted _ => throw (.fault (.notExpression quoted))
    | .apply operator args =>
      match formOf forms operator with
      | some form => form.run rounds (eval rounds depth forms frame) forms frame args
      | none => do
        let function ← eval rounds depth forms frame operator
        if function.kind ≠ .function then throw (.fault .notFunction)
        let values ← args.mapM (eval rounds depth forms frame)
        applyValue depth (eval rounds depth) function values
where
  formOf (forms : Registry) : Expr → Option Form
    | .word name => forms.lookup name
    | _ => none

/-- The limits under which programs run: how deep evaluations and arrays may be nested, and how many
rounds a loop may take. -/
structure Limits where
  depth : Nat
  rounds : Nat
  deriving DecidableEq, Repr

def Limits.standard : Limits := ⟨400, 10 ^ 18⟩

end CallScript
