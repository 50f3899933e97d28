import CallScript.Proofs.Eval.Native
import CallScript.Proofs.Eval.Soundness

/-!
# What follows from the rules is evaluated

Every derived outcome is what evaluation comes to, from some limits on. The limits that the premises
of a rule need are below a common one, and a rule needs no more than one level of depth and one round
of its own. A loop has its own count of rounds beside the one that loops inside of it start with,
because only the former shrinks from round to round.
-/

namespace CallScript

variable {α β : Type} {w w₁ w' : World}

/-- From some limits on, a computation ends so. The first number bounds the loop that the computation
may be, and the other two bound what is evaluated inside of it. -/
def Reaches (task : (turns rounds depth : Nat) → Run α) (w : World) (o : Outcome α) (w' : World) :
    Prop :=
  ∃ n, ∀ turns rounds depth, n ≤ turns → n ≤ rounds → n ≤ depth →
    task turns rounds depth w = o.result w'

namespace Reaches

variable {task : Nat → Nat → Nat → Run α} {next : Nat → Nat → Nat → α → Run β} {o : Outcome α}

theorem of_forall (h : ∀ turns rounds depth, task turns rounds depth w = o.result w') :
    Reaches task w o w' :=
  ⟨0, fun turns rounds depth _ _ _ => h turns rounds depth⟩

theorem bind {a : α} {o : Outcome β} (first : Reaches task w (.value a) w₁)
    (second : Reaches (fun turns rounds depth => next turns rounds depth a) w₁ o w') :
    Reaches (fun turns rounds depth => task turns rounds depth >>= next turns rounds depth)
      w o w' := by
  obtain ⟨n, hfirst⟩ := first
  obtain ⟨m, hsecond⟩ := second
  refine ⟨max n m, fun turns rounds depth hturns hrounds hdepth => ?_⟩
  have hvalue := hfirst turns rounds depth (by omega) (by omega) (by omega)
  have hrest := hsecond turns rounds depth (by omega) (by omega) (by omega)
  exact (bind_of_value hvalue).trans hrest

theorem bind_fault {cause : Fault} (first : Reaches task w (.fault cause) w') :
    Reaches (fun turns rounds depth => task turns rounds depth >>= next turns rounds depth)
      w (.fault cause) w' := by
  obtain ⟨n, hfirst⟩ := first
  refine ⟨n, fun turns rounds depth hturns hrounds hdepth => ?_⟩
  exact bind_of_fault (hfirst turns rounds depth hturns hrounds hdepth)

/-- One level of depth more is there from some limits on. -/
theorem of_deeper (h : Reaches (fun turns rounds depth => task turns rounds (depth + 1)) w o w') :
    Reaches task w o w' := by
  obtain ⟨n, htask⟩ := h
  refine ⟨n + 1, fun turns rounds depth hturns hrounds hdepth => ?_⟩
  obtain ⟨below, rfl⟩ : ∃ below, depth = below + 1 := ⟨depth - 1, by omega⟩
  exact htask turns rounds below (by omega) (by omega) (by omega)

/-- So is one round more. -/
theorem of_longer (h : Reaches (fun turns rounds depth => task (turns + 1) rounds depth) w o w') :
    Reaches task w o w' := by
  obtain ⟨n, htask⟩ := h
  refine ⟨n + 1, fun turns rounds depth hturns hrounds hdepth => ?_⟩
  obtain ⟨left, rfl⟩ : ∃ left, turns = left + 1 := ⟨turns - 1, by omega⟩
  exact htask left rounds depth (by omega) (by omega) (by omega)

/-- A loop that starts may take all rounds. -/
theorem of_start (h : Reaches task w o w') :
    Reaches (fun _ rounds depth => task rounds rounds depth) w o w' := by
  obtain ⟨n, htask⟩ := h
  exact ⟨n, fun _ rounds depth _ hrounds hdepth => htask rounds rounds depth hrounds hrounds hdepth⟩

end Reaches

mutual

theorem Evaluates.reaches {forms frame e w o w'} : Evaluates forms frame e w o w' →
    Reaches (fun _ rounds depth => eval rounds depth forms frame e) w o w'
  | .literal => .of_deeper (.of_forall fun _ _ _ => rfl)
  | .word means => .of_deeper (.of_forall fun _ _ _ => World.fetch_of_means means)
  | .unbound meaningless =>
    .of_deeper (.of_forall fun _ _ _ => World.fetch_of_meaningless meaningless)
  | .foreign => .of_deeper (.of_forall fun _ _ _ => rfl)
  | .form known runs => by
    refine .of_deeper ?_
    simp only [eval_form known]
    exact runs.reaches.of_start
  | .operatorFault noForm first => by
    refine .of_deeper ?_
    simp only [eval_call noForm]
    exact .bind_fault first.reaches
  | .notFunction noForm first kind => by
    refine .of_deeper ?_
    simp only [eval_call noForm]
    refine .bind first.reaches ?_
    simp only [if_neg kind]
    exact .of_forall fun _ _ _ => rfl
  | .argumentFault noForm first kind rest => by
    refine .of_deeper ?_
    simp only [eval_call noForm]
    refine .bind first.reaches ?_
    simp only [if_pos kind]
    exact .bind_fault rest.reaches
  | .call noForm first kind rest calls => by
    refine .of_deeper ?_
    simp only [eval_call noForm]
    refine .bind first.reaches ?_
    simp only [if_pos kind]
    exact .bind rest.reaches calls.reaches

theorem EvaluatesAll.reaches {forms frame es w o w'} : EvaluatesAll forms frame es w o w' →
    Reaches (fun _ rounds depth => es.mapM (eval rounds depth forms frame)) w o w'
  | .nil => .of_forall fun _ _ _ => rfl
  | .fault first => by
    simp only [List.mapM_cons]
    exact .bind_fault first.reaches
  | .laterFault first more => by
    simp only [List.mapM_cons]
    exact .bind first.reaches (.bind_fault more.reaches)
  | .cons first more => by
    simp only [List.mapM_cons]
    exact .bind first.reaches (.bind more.reaches (.of_forall fun _ _ _ => rfl))

theorem Calls.reaches {v args w o w'} : Calls v args w o w' →
    Reaches (fun _ rounds depth => applyValue depth (eval rounds depth) v args) w o w'
  | .native answers => by
    obtain ⟨n, hcall⟩ := answers
    exact ⟨n, fun _ _ depth _ _ hdepth => Native.call_mono hdepth hcall⟩
  | .wrongCount count => by
    simp only [applyValue_wrongCount count]
    exact .of_forall fun _ _ _ => rfl
  | .closure count binds runs => by
    -- The rule says what the new frame binds, and there is one way to order that.
    simp only [applyValue_closure count, ← Bindings.pairs_iff.1 binds]
    exact .bind (.of_forall fun _ _ _ => World.addFrame_eq ..) runs.reaches

theorem RunsForm.reaches {forms frame form parts w o w'} : RunsForm forms frame form parts w o w' →
    Reaches (fun turns rounds depth =>
      form.run turns (eval rounds depth forms frame) forms frame parts) w o w'
  | .badConditional shape => by
    simp only [Form.run_badConditional shape]
    exact .of_forall fun _ _ _ => rfl
  | .testFault tests => by
    simp only [Form.run_conditional]
    exact .bind_fault tests.reaches
  | .yes tests holds chosen => by
    simp only [Form.run_conditional]
    refine .bind tests.reaches ?_
    simp only [holds, Bool.false_eq_true, if_false]
    exact chosen.reaches
  | .no tests fails chosen => by
    simp only [Form.run_conditional]
    refine .bind tests.reaches ?_
    simp only [if_pos fails]
    exact chosen.reaches
  | .badLoop shape => by
    simp only [Form.run_badLoop shape]
    exact .of_forall fun _ _ _ => rfl
  | .loopTestFault tests => by
    refine .of_longer ?_
    simp only [Form.run_loop_succ]
    exact .bind_fault tests.reaches
  | .loopEnd tests fails => by
    refine .of_longer ?_
    simp only [Form.run_loop_succ]
    refine .bind tests.reaches ?_
    simp only [if_pos fails]
    exact .of_forall fun _ _ _ => rfl
  | .loopBodyFault tests holds first => by
    refine .of_longer ?_
    simp only [Form.run_loop_succ]
    refine .bind tests.reaches ?_
    simp only [holds, Bool.false_eq_true, if_false]
    exact .bind_fault first.reaches
  | .loopAgain tests holds first again => by
    refine .of_longer ?_
    simp only [Form.run_loop_succ]
    refine .bind tests.reaches ?_
    simp only [holds, Bool.false_eq_true, if_false]
    exact .bind first.reaches again.reaches
  | .sequenceFault all => by
    simp only [Form.run_sequence]
    exact .bind_fault all.reaches
  | .sequence all => by
    simp only [Form.run_sequence]
    exact .bind all.reaches (.of_forall fun _ _ _ => rfl)
  | .badDefinition shape => by
    simp only [Form.run_badDefinition shape]
    exact .of_forall fun _ _ _ => rfl
  | .definitionFault first => by
    simp only [Form.run_definition]
    exact .bind (.of_forall fun _ _ _ => Form.noteShadowing_eq ..) (.bind_fault first.reaches)
  | .definition first => by
    simp only [Form.run_definition]
    refine .bind (.of_forall fun _ _ _ => Form.noteShadowing_eq ..) (.bind first.reaches ?_)
    exact .of_forall fun _ _ _ => rfl
  | .missingBody => .of_forall fun _ _ _ => rfl
  | .badParameter shape => by
    simp only [Form.run_badParameter shape]
    exact .of_forall fun _ _ _ => rfl
  | .abstraction => by
    simp only [Form.run_closure]
    exact .of_forall fun _ _ _ => Form.makeClosure_eq ..

end

/-- At most one outcome can be derived, since evaluation comes to all that can. -/
theorem Evaluates.deterministic {forms frame e w o w₁ o' w₂} (h : Evaluates forms frame e w o w₁)
    (h' : Evaluates forms frame e w o' w₂) : o = o' ∧ w₁ = w₂ := by
  obtain ⟨n, heval⟩ := h.reaches
  obtain ⟨m, heval'⟩ := h'.reaches
  have first := heval (max n m) (max n m) (max n m) (by omega) (by omega) (by omega)
  have second := heval' (max n m) (max n m) (max n m) (by omega) (by omega) (by omega)
  exact Outcome.result_inj.1 (first.symm.trans second)

/-- Evaluation comes to what the rules say. An outcome, be it a value or a fault, together with the
world that is left can be derived if some evaluation ends so. If it can be derived, then evaluation
ends so from some limits on, and within no limits does it end in any other way, but for an end at the
limits themselves. -/
theorem eval_agrees_with_rules (forms : Registry) (frame : FrameId) (e : Expr) (w : World)
    (o : Outcome Value) (w' : World) :
    (∀ rounds depth, eval rounds depth forms frame e w = o.result w' →
      Evaluates forms frame e w o w') ∧
    (Evaluates forms frame e w o w' →
      (∃ n, ∀ rounds depth, n ≤ rounds → n ≤ depth →
        eval rounds depth forms frame e w = o.result w') ∧
      ∀ rounds depth o₁ w₁, eval rounds depth forms frame e w = Outcome.result o₁ w₁ →
        o₁ = o ∧ w₁ = w') := by
  refine ⟨fun rounds depth h => eval_followsRules rounds depth _ _ _ _ _ _ h, fun h => ⟨?_, ?_⟩⟩
  · obtain ⟨n, heval⟩ := h.reaches
    exact ⟨n, fun rounds depth hrounds hdepth => heval rounds rounds depth hrounds hrounds hdepth⟩
  · intro rounds depth o₁ w₁ heval
    exact (eval_followsRules rounds depth _ _ _ _ _ _ heval).deterministic h

/-- A function of two parameters of one name, called with two strings. -/
def repeatedParameter : Expr :=
  .apply (.apply (.word "fun") [.word "a", .word "a", .word "a"])
    [.literal (.string "x"), .literal (.string "y")]

/-- The call gives the second string, and leaves the frame of the call and the note of the function
behind. -/
theorem repeatedParameter_gives_last :
    let before : World := ⟨#[⟨[], none⟩], 1, #[]⟩
    let after : World :=
      ⟨#[⟨[], none⟩, ⟨[("a", .string "y")], some 0⟩], 2, #[.notice (.closureMade ["a", "a"])]⟩
    (∃ n, eval n n Registry.standard 0 repeatedParameter before =
        (Outcome.value (.string "y")).result after) ∧
      Evaluates Registry.standard 0 repeatedParameter before (.value (.string "y")) after := by
  intro before after
  obtain ⟨hsound, hcomplete⟩ := eval_agrees_with_rules Registry.standard 0 repeatedParameter before
    (.value (.string "y")) after
  have noForm : ∀ args, NamesNoForm Registry.standard (.apply (.word "fun") args) := fun _ => nofun
  have derived : Evaluates Registry.standard 0 repeatedParameter before (.value (.string "y")) after :=
    .call (noForm _) (.form rfl (@RunsForm.abstraction _ _ ["a", "a"] _ _)) rfl
      (.cons .literal (.cons .literal .nil))
      (.closure rfl (Bindings.ofPairs_pairs _) (.word (.own rfl rfl)))
  obtain ⟨n, heval⟩ := (hcomplete derived).1
  have hresult := heval n n (Nat.le_refl n) (Nat.le_refl n)
  exact ⟨⟨n, hresult⟩, hsound n n hresult⟩

end CallScript
