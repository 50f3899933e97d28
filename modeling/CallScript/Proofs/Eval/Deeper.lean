import CallScript.Proofs.Eval.Isolation
import CallScript.Proofs.Eval.Record

/-!
# Evaluation within greater limits

The limits on depth and on rounds decide only whether an evaluation gets to its end. One that does not
run into a limit comes to the same within greater ones. One that does has recorded by then what it begins
with where there is more room.
-/

namespace CallScript

theorem eval_records (rounds depth : Nat) (forms : Registry) (frame : FrameId) (e : Expr) :
    Maintains Records (eval rounds depth forms frame e) := by
  intro w
  have hruns := @eval_sameRecord rounds depth forms frame e w w rfl rfl
  rw [stateAfter]
  generalize eval rounds depth forms frame e w = ending at hruns ⊢
  cases hruns with
  | ok states =>
    obtain ⟨added, -, hadded, -⟩ := states
    exact ⟨added, hadded⟩
  | error states =>
    obtain ⟨added, -, hadded, -⟩ := states
    exact ⟨added, hadded⟩

variable {limit : Halt → Prop} {depth depth' rounds rounds' : Nat}

/-- The second limits leave at least as much room. Where they leave more, an end at the first ones is one
at a limit. -/
structure MoreRoom (limit : Halt → Prop) (first second : Limits) : Prop where
  depth : first.depth ≤ second.depth
  rounds : first.rounds ≤ second.rounds
  tooDeep : first.depth < second.depth → limit .tooDeep
  outOfRounds : first.rounds < second.rounds → limit .outOfRounds

theorem MoreRoom.below (h : MoreRoom limit ⟨depth + 1, rounds⟩ ⟨depth' + 1, rounds'⟩) :
    MoreRoom limit ⟨depth, rounds⟩ ⟨depth', rounds'⟩ :=
  ⟨Nat.le_of_succ_le_succ h.depth, h.rounds, fun hlt => h.tooDeep (Nat.succ_lt_succ hlt),
    h.outOfRounds⟩

theorem MoreRoom.deeper (hle : depth ≤ depth') (rounds : Nat) :
    MoreRoom (· = .tooDeep) ⟨depth, rounds⟩ ⟨depth', rounds⟩ :=
  ⟨hle, Nat.le_refl _, fun _ => rfl, fun hlt => absurd hlt (Nat.lt_irrefl _)⟩

theorem MoreRoom.longer (hle : rounds ≤ rounds') (depth : Nat) :
    MoreRoom (· = .outOfRounds) ⟨depth, rounds⟩ ⟨depth, rounds'⟩ :=
  ⟨Nat.le_refl _, hle, fun hlt => absurd hlt (Nat.lt_irrefl _), fun _ => rfl⟩

section

variable {sub sub' : Expr → Run Value} {forms : Registry} {frame : FrameId}

theorem loop_cutShort (hle : rounds ≤ rounds') (hlimit : rounds < rounds' → limit .outOfRounds)
    (h : ∀ e, CutShort limit Records (sub e) (sub' e)) (test body : Expr) :
    CutShort limit Records (Form.run rounds sub forms frame .loop [test, body])
      (Form.run rounds' sub' forms frame .loop [test, body]) := by
  induction rounds generalizing rounds' with
  | zero =>
    have hrecords : Maintains Records (Form.run rounds' sub' forms frame .loop [test, body]) :=
      Form.maintains_loop cumulative_records fun e _ => (h e).goesOn
    rw [Form.run_loop_zero]
    rcases Nat.eq_zero_or_pos rounds' with rfl | hlt
    · exact .refl hrecords
    · exact .of_throw (hlimit hlt) hrecords
  | succ rounds ih =>
    obtain ⟨more, rfl⟩ : ∃ more, rounds' = more + 1 := ⟨rounds' - 1, by omega⟩
    rw [Form.run_loop_succ, Form.run_loop_succ]
    refine .bind lasting_records (h test) fun v => ?_
    split
    · exact .refl (.pure lasting_records _)
    · refine .bind lasting_records (h body) fun _ => ?_
      exact ih (Nat.le_of_succ_le_succ hle) fun hlt => hlimit (Nat.succ_lt_succ hlt)

theorem run_cutShort (hle : rounds ≤ rounds') (hlimit : rounds < rounds' → limit .outOfRounds)
    (h : ∀ e, CutShort limit Records (sub e) (sub' e)) (form : Form) (parts : List Expr) :
    CutShort limit Records (form.run rounds sub forms frame parts)
      (form.run rounds' sub' forms frame parts) := by
  have hR := lasting_records
  fun_cases Form.run rounds sub forms frame form parts with
  | case1 test yes no =>
    simp only [Form.run_conditional]
    refine .bind hR (h test) fun v => ?_
    split
    · exact h no
    · exact h yes
  | case3 test body => exact loop_cutShort hle hlimit h test body
  | case5 =>
    simp only [Form.run_sequence, Form.inTurn_eq]
    exact .bind hR (.mapM hR h parts) fun values => .refl (.pure hR _)
  | case6 name e =>
    have hnote := Form.maintains_noteShadowing cumulative_records forms name
    simp only [Form.run_definition]
    refine .bind hR (.refl hnote) fun _ => .bind hR (h e) fun v => .refl ?_
    exact .bind hR (fun w => hR.refl w) fun _ => .pure hR v
  | case10 parts body hlast params hparams =>
    simp only [Form.run, hlast, hparams]
    exact .refl fun w => ⟨#[.notice (.closureMade params)], Array.push_eq_append⟩
  | _ =>
    simp only [Form.run, *]
    exact .refl (.throw hR _)

end

theorem applyValue_cutShort (hroom : MoreRoom limit ⟨depth, rounds⟩ ⟨depth', rounds'⟩)
    (ih : ∀ forms frame e, CutShort limit Records (eval rounds depth forms frame e)
      (eval rounds' depth' forms frame e)) (v : Value) (args : List Value) :
    CutShort limit Records (applyValue depth (eval rounds depth) v args)
      (applyValue depth' (eval rounds' depth') v args) := by
  cases v with
  | native op id => exact Native.call_cutShort hroom.depth hroom.tooDeep op args
  | closure id params body frame forms =>
    by_cases hcount : args.length = params.length
    · rw [applyValue_closure hcount, applyValue_closure hcount]
      refine .bind lasting_records (.refl fun w => lasting_records.refl w) fun inner => ?_
      exact ih forms inner body
    · rw [applyValue_wrongCount hcount, applyValue_wrongCount hcount]
      exact .refl (.throw lasting_records _)
  | _ => exact .refl (.throw lasting_records _)

/-- An evaluation that does not run into a limit comes to the same where there is more room. -/
theorem eval_cutShort (hroom : MoreRoom limit ⟨depth, rounds⟩ ⟨depth', rounds'⟩) (forms : Registry)
    (frame : FrameId) (e : Expr) :
    CutShort limit Records (eval rounds depth forms frame e) (eval rounds' depth' forms frame e) := by
  have hR := lasting_records
  induction depth generalizing depth' forms frame e with
  | zero =>
    have hrecords := eval_records rounds' depth' forms frame e
    rcases Nat.eq_zero_or_pos depth' with rfl | hlt
    · exact .refl hrecords
    · exact .of_throw (hroom.tooDeep hlt) hrecords
  | succ depth ih =>
    obtain ⟨below, rfl⟩ : ∃ below, depth' = below + 1 :=
      ⟨depth' - 1, by have := hroom.depth; simp only at this; omega⟩
    cases e with
    | apply operator args =>
      rcases namesNoForm_or forms operator with hcall | ⟨name, form, rfl, hform⟩
      · rw [eval_call hcall, eval_call hcall]
        refine .bind hR (ih hroom.below forms frame operator) fun function => ?_
        split
        · refine .bind hR (.mapM hR (ih hroom.below forms frame) args) fun values => ?_
          exact applyValue_cutShort hroom.below (ih hroom.below) function values
        · exact .refl (.throw hR _)
      · rw [eval_form hform, eval_form hform]
        exact run_cutShort hroom.rounds hroom.outOfRounds (ih hroom.below forms frame) form args
    | _ => exact .refl (eval_records rounds (depth + 1) forms frame _)

/-- An evaluation that does not run into the limit on depth comes to the same with more levels. -/
theorem eval_upToDepth_of_le (hle : depth ≤ depth') (rounds : Nat) (forms : Registry)
    (frame : FrameId) (e : Expr) :
    UpToDepth (eval rounds depth forms frame e) (eval rounds depth' forms frame e) :=
  eval_cutShort (.deeper hle rounds) forms frame e

/-- A form takes one level, and comes to the same without it. -/
theorem eval_form_upToDepth {forms : Registry} {name : String} {form : Form}
    (h : forms.lookup name = some form) (rounds depth : Nat) (frame : FrameId) (parts : List Expr) :
    UpToDepth (eval rounds depth forms frame (.apply (.word name) parts))
      (form.run rounds (eval rounds depth forms frame) forms frame parts) := by
  cases depth with
  | zero =>
    refine .tooDeep (Form.maintains_run cumulative_records (fun _ e _ => ?_) ?_)
    · exact eval_records rounds 0 forms frame e
    · exact fun name e v _ _ w => lasting_records.refl w
  | succ depth =>
    rw [eval_form h]
    refine run_cutShort (Nat.le_refl _) (fun hlt => absurd hlt (Nat.lt_irrefl _)) (fun e => ?_) form parts
    exact eval_upToDepth_of_le (Nat.le_succ depth) rounds forms frame e

end CallScript
