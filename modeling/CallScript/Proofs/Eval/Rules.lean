import CallScript.Proofs.Eval.Outcome
import CallScript.Proofs.Store.Scope
import CallScript.Proofs.Store.World

/-!
# Rules of evaluation

What evaluating an expression in a frame comes to, as rules without limits. `Evaluates forms frame e w
o w'` reads "in `frame` and with the special forms `forms`, `e` evaluated in the world `w` ends with
the outcome `o` and leaves the world `w'`". A world holds all frames and the whole record, so a rule
that passes worlds from one premise to the next fixes the order of everything that can be seen, and a
premise that is missing from a rule is something that is not evaluated.

Native functions are taken as they are: a call of one ends in any way that it ends in when it may look
into arrays deeply enough.
-/

namespace CallScript

/-- A call with this operator runs no special form. -/
def NamesNoForm (forms : Registry) (operator : Expr) : Prop :=
  ∀ name, operator = .word name → forms.lookup name = none

mutual

/-- One expression. -/
inductive Evaluates : Registry → FrameId → Expr → World → Outcome Value → World → Prop where
  | literal {forms frame v w} : Evaluates forms frame (.literal v) w (.value v) w
  | word {forms frame name v w} (means : Means w.frames name frame v) :
      Evaluates forms frame (.word name) w (.value v) w
  | unbound {forms frame name w} (meaningless : ∀ v, ¬ Means w.frames name frame v) :
      Evaluates forms frame (.word name) w (.fault (.undefined name)) w
  | foreign {forms frame quoted plain w} :
      Evaluates forms frame (.foreign quoted plain) w (.fault (.notExpression quoted)) w
  | form {forms frame name form parts w o w'} (known : forms.lookup name = some form)
      (runs : RunsForm forms frame form parts w o w') :
      Evaluates forms frame (.apply (.word name) parts) w o w'
  | operatorFault {forms frame operator args w cause w'} (noForm : NamesNoForm forms operator)
      (first : Evaluates forms frame operator w (.fault cause) w') :
      Evaluates forms frame (.apply operator args) w (.fault cause) w'
  | notFunction {forms frame operator args w v w'} (noForm : NamesNoForm forms operator)
      (first : Evaluates forms frame operator w (.value v) w') (kind : v.kind ≠ .function) :
      Evaluates forms frame (.apply operator args) w (.fault .notFunction) w'
  | argumentFault {forms frame operator args w v w₁ cause w'} (noForm : NamesNoForm forms operator)
      (first : Evaluates forms frame operator w (.value v) w₁) (kind : v.kind = .function)
      (rest : EvaluatesAll forms frame args w₁ (.fault cause) w') :
      Evaluates forms frame (.apply operator args) w (.fault cause) w'
  | call {forms frame operator args w v w₁ values w₂ o w'} (noForm : NamesNoForm forms operator)
      (first : Evaluates forms frame operator w (.value v) w₁) (kind : v.kind = .function)
      (rest : EvaluatesAll forms frame args w₁ (.value values) w₂) (calls : Calls v values w₂ o w') :
      Evaluates forms frame (.apply operator args) w o w'

/-- Several expressions in turn, up to the first fault. -/
inductive EvaluatesAll :
    Registry → FrameId → List Expr → World → Outcome (List Value) → World → Prop where
  | nil {forms frame w} : EvaluatesAll forms frame [] w (.value []) w
  | fault {forms frame e rest w cause w'} (first : Evaluates forms frame e w (.fault cause) w') :
      EvaluatesAll forms frame (e :: rest) w (.fault cause) w'
  | laterFault {forms frame e rest w v w₁ cause w'}
      (first : Evaluates forms frame e w (.value v) w₁)
      (more : EvaluatesAll forms frame rest w₁ (.fault cause) w') :
      EvaluatesAll forms frame (e :: rest) w (.fault cause) w'
  | cons {forms frame e rest w v w₁ values w'} (first : Evaluates forms frame e w (.value v) w₁)
      (more : EvaluatesAll forms frame rest w₁ (.value values) w') :
      EvaluatesAll forms frame (e :: rest) w (.value (v :: values)) w'

/-- A call of a function. One made by a program has its body evaluated in a new frame, inside the
frame that it was made in and with the special forms that it was made with. -/
inductive Calls : Value → List Value → World → Outcome Value → World → Prop where
  | native {op home args w o w'} (answers : ∃ depth, op.call depth args w = o.result w') :
      Calls (.native op home) args w o w'
  | wrongCount {id params body frame forms args w} (count : args.length ≠ params.length) :
      Calls (.closure id params body frame forms) args w
        (.fault (.closureArity params.length args.length)) w
  | closure {id params body frame forms args bindings w o w'} (count : args.length = params.length)
      (binds : Bindings.Pairs (params.zip args) bindings)
      (runs : Evaluates forms w.frames.size body (w.withFrame bindings frame) o w') :
      Calls (.closure id params body frame forms) args w o w'

/-- A special form with its parts. -/
inductive RunsForm : Registry → FrameId → Form → List Expr → World → Outcome Value → World → Prop where
  | badConditional {forms frame parts w} (shape : parts.length ≠ 3) :
      RunsForm forms frame .conditional parts w (.fault .badConditional) w
  | testFault {forms frame test yes no w cause w'}
      (tests : Evaluates forms frame test w (.fault cause) w') :
      RunsForm forms frame .conditional [test, yes, no] w (.fault cause) w'
  | yes {forms frame test yes no w v w₁ o w'} (tests : Evaluates forms frame test w (.value v) w₁)
      (holds : v.isFalse = false) (chosen : Evaluates forms frame yes w₁ o w') :
      RunsForm forms frame .conditional [test, yes, no] w o w'
  | no {forms frame test yes no w v w₁ o w'} (tests : Evaluates forms frame test w (.value v) w₁)
      (fails : v.isFalse = true) (chosen : Evaluates forms frame no w₁ o w') :
      RunsForm forms frame .conditional [test, yes, no] w o w'
  | badLoop {forms frame parts w} (shape : parts.length ≠ 2) :
      RunsForm forms frame .loop parts w (.fault .badLoop) w
  | loopTestFault {forms frame test body w cause w'}
      (tests : Evaluates forms frame test w (.fault cause) w') :
      RunsForm forms frame .loop [test, body] w (.fault cause) w'
  | loopEnd {forms frame test body w v w'} (tests : Evaluates forms frame test w (.value v) w')
      (fails : v.isFalse = true) :
      RunsForm forms frame .loop [test, body] w (.value (.boolean false)) w'
  | loopBodyFault {forms frame test body w v w₁ cause w'}
      (tests : Evaluates forms frame test w (.value v) w₁) (holds : v.isFalse = false)
      (first : Evaluates forms frame body w₁ (.fault cause) w') :
      RunsForm forms frame .loop [test, body] w (.fault cause) w'
  | loopAgain {forms frame test body w v w₁ v' w₂ o w'}
      (tests : Evaluates forms frame test w (.value v) w₁) (holds : v.isFalse = false)
      (first : Evaluates forms frame body w₁ (.value v') w₂)
      (again : RunsForm forms frame .loop [test, body] w₂ o w') :
      RunsForm forms frame .loop [test, body] w o w'
  | sequenceFault {forms frame parts w cause w'}
      (all : EvaluatesAll forms frame parts w (.fault cause) w') :
      RunsForm forms frame .sequence parts w (.fault cause) w'
  | sequence {forms frame parts w values w'}
      (all : EvaluatesAll forms frame parts w (.value values) w') :
      RunsForm forms frame .sequence parts w (.value (values.getLastD (.boolean false))) w'
  | badDefinition {forms frame parts w} (shape : ∀ name e, parts ≠ [.word name, e]) :
      RunsForm forms frame .definition parts w (.fault .badDefinition) w
  | definitionFault {forms frame name e w cause w'}
      (first : Evaluates forms frame e (w.withWarning forms name) (.fault cause) w') :
      RunsForm forms frame .definition [.word name, e] w (.fault cause) w'
  | definition {forms frame name e w v w'}
      (first : Evaluates forms frame e (w.withWarning forms name) (.value v) w') :
      RunsForm forms frame .definition [.word name, e] w (.value v) (w'.withBinding frame name v)
  | missingBody {forms frame w} :
      RunsForm forms frame .abstraction [] w (.fault .missingBody) w
  | badParameter {forms frame params body w} (shape : ∃ param ∈ params, ∀ name, param ≠ .word name) :
      RunsForm forms frame .abstraction (params ++ [body]) w (.fault .badParameter) w
  | abstraction {forms frame params body w} :
      RunsForm forms frame .abstraction (params.map .word ++ [body]) w
        (.value (.closure w.nextId params body frame forms))
        (w.withObject.withEvent (.notice (.closureMade params)))

end

end CallScript
