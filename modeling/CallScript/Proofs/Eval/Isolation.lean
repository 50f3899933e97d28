import CallScript.Proofs.Eval.Native
import CallScript.Proofs.Eval.Step
import Mathlib.Data.List.Basic

/-!
# What evaluation writes to

An evaluation writes to the frame it runs in and to frames that it makes itself. Of the names of its
own frame it binds anew only those that a definition in the expression names, outside of the functions
that the expression makes; what a function writes when it is called goes to the frame of that call.
This holds however the evaluation ends, at the limits too.
-/

namespace CallScript

variable {rounds depth : Nat} {forms : Registry} {frame : FrameId} {R : World → World → Prop}

theorem maintains_fetch (hR : Cumulative R) (frame : FrameId) (name : String) :
    Maintains R (World.fetch frame name) := by
  intro w
  have hfetch := World.fetch_eq frame name w
  cases h : lookup w.frames name frame with
  | some v =>
    rw [h] at hfetch
    rw [stateAfter_of_ok hfetch]
    exact hR.refl w
  | none =>
    rw [h] at hfetch
    rw [stateAfter_of_error hfetch]
    exact hR.refl w

namespace Form

variable {sub : Expr → Run Value}

theorem maintains_noteShadowing (hR : Cumulative R) (forms : Registry) (name : String) :
    Maintains R (noteShadowing forms name) := by
  intro w
  rw [stateAfter_of_ok (noteShadowing_eq forms name w), World.withWarning]
  split
  · exact hR.event w _
  · exact hR.refl w

theorem maintains_conditional (hR : Cumulative R) {parts : List Expr}
    (hparts : ∀ e ∈ parts, Maintains R (sub e)) :
    Maintains R (run rounds sub forms frame .conditional parts) := by
  by_cases hshape : parts.length = 3
  · obtain ⟨test, yes, no, rfl⟩ := List.length_eq_three.1 hshape
    rw [run_conditional]
    refine .bind hR.toLasting (hparts test (by simp)) fun v => ?_
    split
    · exact hparts no (by simp)
    · exact hparts yes (by simp)
  · rw [run_badConditional hshape]
    exact .throw hR.toLasting _

theorem maintains_loop (hR : Cumulative R) {parts : List Expr}
    (hparts : ∀ e ∈ parts, Maintains R (sub e)) :
    Maintains R (run rounds sub forms frame .loop parts) := by
  by_cases hshape : parts.length = 2
  · obtain ⟨test, body, rfl⟩ := List.length_eq_two.1 hshape
    induction rounds with
    | zero =>
      rw [run_loop_zero]
      exact .throw hR.toLasting _
    | succ rounds ih =>
      rw [run_loop_succ]
      refine .bind hR.toLasting (hparts test (by simp)) fun v => ?_
      split
      · exact .pure hR.toLasting _
      · exact .bind hR.toLasting (hparts body (by simp)) fun _ => ih
  · rw [run_badLoop hshape]
    exact .throw hR.toLasting _

theorem maintains_sequence (hR : Cumulative R) {parts : List Expr}
    (hparts : ∀ e ∈ parts, Maintains R (sub e)) :
    Maintains R (run rounds sub forms frame .sequence parts) := by
  rw [run_sequence]
  exact .bind hR.toLasting (.mapM hR.toLasting hparts) fun values => .pure hR.toLasting _

theorem maintains_definition (hR : Cumulative R) {parts : List Expr}
    (hparts : ∀ e ∈ parts, Maintains R (sub e))
    (hdefine : ∀ name e v, parts = [.word name, e] → Maintains R (World.define frame name v)) :
    Maintains R (run rounds sub forms frame .definition parts) := by
  by_cases hshape : ∃ name e, parts = [.word name, e]
  · obtain ⟨name, e, rfl⟩ := hshape
    rw [run_definition]
    refine .bind hR.toLasting (maintains_noteShadowing hR forms name) fun _ => ?_
    refine .bind hR.toLasting (hparts e (by simp)) fun v => ?_
    exact .bind hR.toLasting (hdefine name e v rfl) fun _ => .pure hR.toLasting v
  · rw [run_badDefinition fun name e h => hshape ⟨name, e, h⟩]
    exact .throw hR.toLasting _

theorem maintains_abstraction (hR : Cumulative R) (parts : List Expr) :
    Maintains R (run rounds sub forms frame .abstraction parts) := by
  rcases List.eq_nil_or_concat parts with rfl | ⟨params, body, rfl⟩
  · exact .throw hR.toLasting _
  · rw [List.concat_eq_append, run_abstraction]
    split
    · exact .throw hR.toLasting _
    · exact fun w => hR.trans (hR.object w) (hR.event _ _)

/-- A form maintains what its parts do, and what a definition in their place does. The parts of a
function are not evaluated when it is made. -/
theorem maintains_run (hR : Cumulative R) {form : Form} {parts : List Expr}
    (hparts : form ≠ .abstraction → ∀ e ∈ parts, Maintains R (sub e))
    (hdefine : ∀ name e v, form = .definition → parts = [.word name, e] →
      Maintains R (World.define frame name v)) :
    Maintains R (form.run rounds sub forms frame parts) := by
  cases form with
  | conditional => exact maintains_conditional hR (hparts nofun)
  | loop => exact maintains_loop hR (hparts nofun)
  | sequence => exact maintains_sequence hR (hparts nofun)
  | definition =>
    exact maintains_definition hR (hparts nofun) fun name e v h => hdefine name e v rfl h
  | abstraction => exact maintains_abstraction hR parts

end Form

/-- A call with this operator runs the form. -/
def NamesForm (forms : Registry) (form : Form) (operator : Expr) : Prop :=
  ∃ name, operator = .word name ∧ forms.lookup name = some form

/-- The name is the first part of a definition that occurs in the expression, outside of all functions
that the expression makes. -/
inductive Defines (forms : Registry) (name : String) : Expr → Prop where
  | here {operator e : Expr} (definition : NamesForm forms .definition operator) :
      Defines forms name (.apply operator [.word name, e])
  | operator {operator : Expr} {args : List Expr} (outside : ¬ NamesForm forms .abstraction operator)
      (inside : Defines forms name operator) : Defines forms name (.apply operator args)
  | arg {operator e : Expr} {args : List Expr} (outside : ¬ NamesForm forms .abstraction operator)
      (mem : e ∈ args) (inside : Defines forms name e) : Defines forms name (.apply operator args)

/-- An evaluator writes at most what definitions in the expression name. -/
def WritesDefined (sub : Registry → FrameId → Expr → Run Value) : Prop :=
  ∀ forms frame e, Maintains (OnlyWrites frame (Defines forms · e)) (sub forms frame e)

variable {sub : Registry → FrameId → Expr → Run Value}

/-- What a function writes goes to the frame of the call, which was not there before. -/
theorem maintains_applyValue (hsub : WritesDefined sub) (depth : Nat) (v : Value)
    (args : List Value) : Maintains Extends (applyValue depth sub v args) := by
  cases v with
  | native op home => exact Native.maintains_call onFrames_extends.cumulative depth op args
  | closure id params body frame forms =>
    by_cases hcount : args.length = params.length
    · rw [applyValue_closure hcount]
      -- The frame of the call stands behind those that there were, so writes to it are none to them.
      intro w
      rw [stateAfter_bind_of_ok (World.addFrame_eq ..)]
      have hbody := hsub forms w.frames.size body
        (w.withFrame (Bindings.ofPairs (params.zip args)) frame)
      exact hbody.extends_of_new (extends_withFrame ..) (Nat.le_refl _)
    · rw [applyValue_wrongCount hcount]
      exact .throw lasting_extends _
  | _ => exact .throw lasting_extends _

theorem maintains_form (hsub : WritesDefined sub) {name : String} {form : Form}
    (known : forms.lookup name = some form) (parts : List Expr) :
    Maintains (OnlyWrites frame (Defines forms · (.apply (.word name) parts)))
      (form.run rounds (sub forms frame) forms frame parts) := by
  refine Form.maintains_run (onFrames_onlyWrites ..).cumulative (fun hform e he => ?_) ?_
  · have outside : ¬ NamesForm forms .abstraction (.word name) := by
      rintro ⟨name', hname, hknown⟩
      cases hname
      rw [known, Option.some.injEq] at hknown
      exact hform hknown
    refine (hsub forms frame e).mono fun w w' h => h.mono fun other inside => ?_
    exact .arg outside he inside
  · rintro defined e v rfl rfl w
    have hwrite := onlyWrites_withBinding frame defined v w
    refine hwrite.mono fun other hother => ?_
    subst hother
    exact .here ⟨name, rfl, known⟩

theorem maintains_call (hsub : WritesDefined (eval rounds depth)) {operator : Expr}
    (noForm : NamesNoForm forms operator) (args : List Expr) :
    Maintains (OnlyWrites frame (Defines forms · (.apply operator args)))
      (eval rounds (depth + 1) forms frame (.apply operator args)) := by
  have outside : ¬ NamesForm forms .abstraction operator := by
    rintro ⟨name, rfl, hknown⟩
    rw [noForm name rfl] at hknown
    cases hknown
  have hR := lasting_onlyWrites frame (Defines forms · (.apply operator args))
  rw [eval_call noForm]
  refine .bind hR ?_ fun function => ?_
  · refine (hsub forms frame operator).mono fun w w' h => h.mono fun name inside => ?_
    exact .operator outside inside
  · split
    · refine .bind hR (.mapM hR fun e he => ?_) fun values => ?_
      · refine (hsub forms frame e).mono fun w w' h => h.mono fun name inside => ?_
        exact .arg outside he inside
      · exact (maintains_applyValue hsub depth function values).mono fun w w' h => h.onlyWrites _ _
    · exact .throw hR _

theorem eval_writesDefined (rounds depth : Nat) : WritesDefined (eval rounds depth) := by
  induction depth with
  | zero => exact fun forms frame e => .throw (lasting_onlyWrites ..) _
  | succ depth ih =>
    intro forms frame e
    have hR := (onFrames_onlyWrites frame (Defines forms · e)).cumulative
    cases e with
    | literal v => exact .pure hR.toLasting v
    | word name => exact maintains_fetch hR frame name
    | foreign quoted plain => exact .throw hR.toLasting _
    | apply operator args =>
      rcases namesNoForm_or forms operator with noForm | ⟨name, form, rfl, known⟩
      · exact maintains_call ih noForm args
      · rw [eval_form known]
        exact maintains_form ih known args

/-- A call of a function changes no frame that there was before. -/
theorem applyValue_extends (rounds depth : Nat) (v : Value) (args : List Value) :
    Maintains Extends (applyValue depth (eval rounds depth) v args) :=
  maintains_applyValue (eval_writesDefined rounds depth) depth v args

end CallScript
