import CallScript.Proofs.Eval.Step
import Mathlib.Data.List.Basic

/-!
# What is evaluated follows from the rules

Every outcome that evaluation comes to can be derived. The induction is on the depth; below it stands
one fact for every function of the evaluator, about any evaluator of nested expressions whose outcomes
can be derived.
-/

namespace CallScript

variable {rounds depth : Nat} {forms : Registry} {frame : FrameId} {w w' : World}
variable {sub : Registry → FrameId → Expr → Run Value}

/-- The outcomes of an evaluator can be derived. -/
def FollowsRules (sub : Registry → FrameId → Expr → Run Value) : Prop :=
  ∀ forms frame e w o w', sub forms frame e w = Outcome.result o w' →
    Evaluates forms frame e w o w'

theorem evaluatesAll_of_mapM (hsub : FollowsRules sub) {es : List Expr} {o : Outcome (List Value)}
    (h : es.mapM (sub forms frame) w = o.result w') : EvaluatesAll forms frame es w o w' := by
  induction es generalizing w o with
  | nil =>
    rw [List.mapM_nil, pure_eq_result_iff] at h
    obtain ⟨rfl, rfl⟩ := h
    exact .nil
  | cons e rest ih =>
    rw [List.mapM_cons, bind_eq_result_iff] at h
    rcases h with ⟨v, w₁, hfirst, h⟩ | ⟨cause, hfirst, rfl⟩
    · have first := hsub _ _ _ _ _ _ hfirst
      rw [bind_eq_result_iff] at h
      rcases h with ⟨values, w₂, hmore, h⟩ | ⟨cause, hmore, rfl⟩
      · rw [pure_eq_result_iff] at h
        obtain ⟨rfl, rfl⟩ := h
        exact .cons first (ih hmore)
      · exact .laterFault first (ih hmore)
    · exact .fault (hsub _ _ _ _ _ _ hfirst)

theorem calls_of_applyValue (hsub : FollowsRules sub) {v : Value} (hkind : v.kind = .function)
    {args : List Value} {o : Outcome Value} (h : applyValue depth sub v args w = o.result w') :
    Calls v args w o w' := by
  cases v with
  | native op home => exact .native ⟨depth, h⟩
  | closure id params body frame forms =>
    by_cases hcount : args.length = params.length
    · rw [applyValue_closure hcount, bind_of_value (World.addFrame_eq ..)] at h
      exact .closure hcount (Bindings.ofPairs_pairs _) (hsub _ _ _ _ _ _ h)
    · rw [applyValue_wrongCount hcount, throw_fault_eq_result_iff] at h
      obtain ⟨rfl, rfl⟩ := h
      exact .wrongCount hcount
  | _ => cases hkind

theorem runsForm_of_conditional (hsub : FollowsRules sub) {parts : List Expr} {o : Outcome Value}
    (h : Form.run rounds (sub forms frame) forms frame .conditional parts w = o.result w') :
    RunsForm forms frame .conditional parts w o w' := by
  by_cases hshape : parts.length = 3
  · obtain ⟨test, yes, no, rfl⟩ := List.length_eq_three.1 hshape
    rw [Form.run_conditional, bind_eq_result_iff] at h
    rcases h with ⟨v, w₁, htest, h⟩ | ⟨cause, htest, rfl⟩
    · have tests := hsub _ _ _ _ _ _ htest
      by_cases hv : v.isFalse = true
      · rw [if_pos hv] at h
        exact .no tests hv (hsub _ _ _ _ _ _ h)
      · rw [if_neg hv] at h
        exact .yes tests (Bool.eq_false_iff.2 hv) (hsub _ _ _ _ _ _ h)
    · exact .testFault (hsub _ _ _ _ _ _ htest)
  · rw [Form.run_badConditional hshape, throw_fault_eq_result_iff] at h
    obtain ⟨rfl, rfl⟩ := h
    exact .badConditional hshape

/-- One rule for each way in which a round ends. The induction is on the rounds that are left. -/
theorem runsForm_of_rounds (hsub : FollowsRules sub) {test body : Expr} {o : Outcome Value}
    (h : Form.run rounds (sub forms frame) forms frame .loop [test, body] w = o.result w') :
    RunsForm forms frame .loop [test, body] w o w' := by
  induction rounds generalizing w with
  | zero =>
    rw [Form.run_loop_zero] at h
    exact absurd h throw_outOfRounds_ne_result
  | succ rounds ih =>
    rw [Form.run_loop_succ, bind_eq_result_iff] at h
    rcases h with ⟨v, w₁, htest, h⟩ | ⟨cause, htest, rfl⟩
    · have tests := hsub _ _ _ _ _ _ htest
      by_cases hv : v.isFalse = true
      · rw [if_pos hv, pure_eq_result_iff] at h
        obtain ⟨rfl, rfl⟩ := h
        exact .loopEnd tests hv
      · have holds := Bool.eq_false_iff.2 hv
        rw [if_neg hv, bind_eq_result_iff] at h
        rcases h with ⟨v', w₂, hbody, h⟩ | ⟨cause, hbody, rfl⟩
        · exact .loopAgain tests holds (hsub _ _ _ _ _ _ hbody) (ih h)
        · exact .loopBodyFault tests holds (hsub _ _ _ _ _ _ hbody)
    · exact .loopTestFault (hsub _ _ _ _ _ _ htest)

theorem runsForm_of_loop (hsub : FollowsRules sub) {parts : List Expr} {o : Outcome Value}
    (h : Form.run rounds (sub forms frame) forms frame .loop parts w = o.result w') :
    RunsForm forms frame .loop parts w o w' := by
  by_cases hshape : parts.length = 2
  · obtain ⟨test, body, rfl⟩ := List.length_eq_two.1 hshape
    exact runsForm_of_rounds hsub h
  · rw [Form.run_badLoop hshape, throw_fault_eq_result_iff] at h
    obtain ⟨rfl, rfl⟩ := h
    exact .badLoop hshape

theorem runsForm_of_sequence (hsub : FollowsRules sub) {parts : List Expr} {o : Outcome Value}
    (h : Form.run rounds (sub forms frame) forms frame .sequence parts w = o.result w') :
    RunsForm forms frame .sequence parts w o w' := by
  rw [Form.run_sequence, bind_eq_result_iff] at h
  rcases h with ⟨values, w₁, hall, h⟩ | ⟨cause, hall, rfl⟩
  · rw [pure_eq_result_iff] at h
    obtain ⟨rfl, rfl⟩ := h
    exact .sequence (evaluatesAll_of_mapM hsub hall)
  · exact .sequenceFault (evaluatesAll_of_mapM hsub hall)

theorem runsForm_of_definition (hsub : FollowsRules sub) {parts : List Expr} {o : Outcome Value}
    (h : Form.run rounds (sub forms frame) forms frame .definition parts w = o.result w') :
    RunsForm forms frame .definition parts w o w' := by
  by_cases hshape : ∃ name e, parts = [.word name, e]
  · obtain ⟨name, e, rfl⟩ := hshape
    rw [Form.run_definition, bind_of_value (Form.noteShadowing_eq ..), bind_eq_result_iff] at h
    rcases h with ⟨v, w₁, hfirst, h⟩ | ⟨cause, hfirst, rfl⟩
    · rw [bind_of_value (World.define_eq ..), pure_eq_result_iff] at h
      obtain ⟨rfl, rfl⟩ := h
      exact .definition (hsub _ _ _ _ _ _ hfirst)
    · exact .definitionFault (hsub _ _ _ _ _ _ hfirst)
  · have hshape : ∀ name e, parts ≠ [.word name, e] := fun name e h => hshape ⟨name, e, h⟩
    rw [Form.run_badDefinition hshape, throw_fault_eq_result_iff] at h
    obtain ⟨rfl, rfl⟩ := h
    exact .badDefinition hshape

theorem runsForm_of_abstraction {sub : Expr → Run Value} {parts : List Expr} {o : Outcome Value}
    (h : Form.run rounds sub forms frame .abstraction parts w = o.result w') :
    RunsForm forms frame .abstraction parts w o w' := by
  rcases List.eq_nil_or_concat parts with rfl | ⟨params, body, rfl⟩
  · rw [Form.run_missingBody, throw_fault_eq_result_iff] at h
    obtain ⟨rfl, rfl⟩ := h
    exact .missingBody
  · rw [List.concat_eq_append] at h ⊢
    rcases Form.words_or_badParameter params with ⟨names, rfl⟩ | hshape
    · rw [Form.run_closure, Form.makeClosure_eq, Outcome.result_inj] at h
      obtain ⟨rfl, rfl⟩ := h
      exact .abstraction
    · rw [Form.run_badParameter hshape, throw_fault_eq_result_iff] at h
      obtain ⟨rfl, rfl⟩ := h
      exact .badParameter hshape

theorem runsForm_of_run (hsub : FollowsRules sub) {form : Form} {parts : List Expr}
    {o : Outcome Value}
    (h : form.run rounds (sub forms frame) forms frame parts w = o.result w') :
    RunsForm forms frame form parts w o w' := by
  cases form with
  | conditional => exact runsForm_of_conditional hsub h
  | loop => exact runsForm_of_loop hsub h
  | sequence => exact runsForm_of_sequence hsub h
  | definition => exact runsForm_of_definition hsub h
  | abstraction => exact runsForm_of_abstraction h

theorem evaluates_of_word {name : String} {o : Outcome Value}
    (h : World.fetch frame name w = o.result w') : Evaluates forms frame (.word name) w o w' := by
  by_cases hmeans : ∃ v, Means w.frames name frame v
  · obtain ⟨v, hmeans⟩ := hmeans
    rw [World.fetch_of_means hmeans, Outcome.result_inj] at h
    obtain ⟨rfl, rfl⟩ := h
    exact .word hmeans
  · have hnone : ∀ v, ¬ Means w.frames name frame v := fun v hv => hmeans ⟨v, hv⟩
    rw [World.fetch_of_meaningless hnone, Outcome.result_inj] at h
    obtain ⟨rfl, rfl⟩ := h
    exact .unbound hnone

theorem evaluates_of_call (hsub : FollowsRules (eval rounds depth)) {operator : Expr}
    {args : List Expr} {o : Outcome Value} (noForm : NamesNoForm forms operator)
    (h : eval rounds (depth + 1) forms frame (.apply operator args) w = o.result w') :
    Evaluates forms frame (.apply operator args) w o w' := by
  rw [eval_call noForm, bind_eq_result_iff] at h
  rcases h with ⟨v, w₁, hfirst, h⟩ | ⟨cause, hfirst, rfl⟩
  · have first := hsub _ _ _ _ _ _ hfirst
    by_cases hkind : v.kind = .function
    · rw [if_pos hkind, bind_eq_result_iff] at h
      rcases h with ⟨values, w₂, hargs, h⟩ | ⟨cause, hargs, rfl⟩
      · exact .call noForm first hkind (evaluatesAll_of_mapM hsub hargs)
          (calls_of_applyValue hsub hkind h)
      · exact .argumentFault noForm first hkind (evaluatesAll_of_mapM hsub hargs)
    · rw [if_neg hkind, throw_fault_eq_result_iff] at h
      obtain ⟨rfl, rfl⟩ := h
      exact .notFunction noForm first hkind
  · exact .operatorFault noForm (hsub _ _ _ _ _ _ hfirst)

theorem eval_followsRules (rounds depth : Nat) : FollowsRules (eval rounds depth) := by
  induction depth with
  | zero =>
    intro forms frame e w o w' h
    exact absurd h throw_tooDeep_ne_result
  | succ depth ih =>
    intro forms frame e w o w' h
    cases e with
    | literal v =>
      obtain ⟨rfl, rfl⟩ := pure_eq_result_iff.1 h
      exact .literal
    | word name => exact evaluates_of_word h
    | foreign quoted plain =>
      obtain ⟨rfl, rfl⟩ := throw_fault_eq_result_iff.1 h
      exact .foreign
    | apply operator args =>
      rcases namesNoForm_or forms operator with noForm | ⟨name, form, rfl, known⟩
      · exact evaluates_of_call ih noForm h
      · rw [eval_form known] at h
        exact .form known (runsForm_of_run ih h)

end CallScript
