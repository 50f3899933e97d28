import CallScript.Proofs.Eval.ButLog
import CallScript.Proofs.Eval.Deeper
import CallScript.Proofs.Session.Batch

/-!
# The same progress

Running the same programs comes to the same in worlds that differ in the log only, and at desks that
differ in what the reporter is at. A special form that takes the programs in sequence comes to the same
too, but keeps the last value alone.
-/

namespace CallScript

variable {limits : Limits} {desk : Desk} {w w' : World}

/-- The same programs gave the same values, and the worlds that are left differ in the log only. -/
structure Progress.Alike (p p' : Progress) : Prop where
  done : p'.done = p.done
  failure : p'.failure = p.failure
  world : SameButLog p.world p'.world

theorem Progress.Alike.refl (p : Progress) : p.Alike p :=
  ⟨rfl, rfl, .refl _⟩

theorem Progress.Alike.trans {p p' p'' : Progress} (h : p.Alike p') (h' : p'.Alike p'') : p.Alike p'' :=
  ⟨h'.done.trans h.done, h'.failure.trans h.failure, h.world.trans h'.world⟩

theorem Progress.Alike.values {p p' : Progress} (h : p.Alike p') : p'.values = p.values :=
  congrArg (List.map Prod.snd) h.done

theorem Progress.Alike.behind {p p' : Progress} (h : p.Alike p') (item : Queued) (value : Value) :
    (p.behind item value).Alike (p'.behind item value) :=
  ⟨congrArg ((item, value) :: ·) h.done, h.failure, h.world⟩

theorem progress_alike (path : String) (forms : Registry) (globals : FrameId) (items : List Queued)
    (h : SameButLog w w') : (progress limits path forms globals items w).Alike
      (progress limits path forms globals items w') := by
  induction items generalizing w w' with
  | nil => exact ⟨rfl, rfl, h⟩
  | cons item rest ih =>
    have hruns := eval_sameButLog limits.rounds limits.depth forms globals item.program h
    rw [progress, progress]
    generalize eval limits.rounds limits.depth forms globals item.program w = first at hruns
    generalize eval limits.rounds limits.depth forms globals item.program w' = first' at hruns
    cases hruns with
    | error states => exact ⟨rfl, rfl, states⟩
    | @ok value _ w w' states values =>
      subst values
      have hlog := (SameButLog.withEvent w (.evaluated path item.line value) (by simp)).symm.trans
        (states.trans (.withEvent w' (.evaluated path item.line value) (by simp)))
      exact (ih hlog).behind item value

/-- The values of programs, or what the first of them that fails ends with. -/
inductive Progress.Leaves (p : Progress) : EStateM.Result Halt World (List Value) → Prop where
  | values {w₁} (all : p.failure = none) (world : SameButLog p.world w₁) : Leaves p (.ok p.values w₁)
  | failure {item halt w₁} (first : p.failure = some (item, halt)) (world : SameButLog p.world w₁) :
      Leaves p (.error halt w₁)

theorem mapM_of_progress (path : String) (forms : Registry) (globals : FrameId) (items : List Queued)
    (h : SameButLog w w') : (progress limits path forms globals items w).Leaves
      ((items.map Queued.program).mapM (eval limits.rounds limits.depth forms globals) w') := by
  induction items generalizing w w' with
  | nil => exact .values rfl h
  | cons item rest ih =>
    have hruns := eval_sameButLog limits.rounds limits.depth forms globals item.program h
    simp only [progress, List.map_cons, List.mapM_cons, bind, EStateM.bind]
    generalize eval limits.rounds limits.depth forms globals item.program w = first at hruns
    generalize eval limits.rounds limits.depth forms globals item.program w' = first' at hruns
    cases hruns with
    | error states => exact .failure rfl states
    | @ok value _ w w' states values =>
      subst values
      have hlog := SameButLog.withEvent w (.evaluated path item.line value) (by simp)
      have hrest := ih (hlog.symm.trans states)
      simp only
      generalize (rest.map Queued.program).mapM (eval limits.rounds limits.depth forms globals) w' =
        others at hrest
      cases hrest with
      | values all world => exact .values all world
      | failure first world => exact .failure first world

/-- The last value of programs, or what the first of them that fails ends with, unless the limit on
depth ends this before. -/
inductive Progress.LeavesLast (p : Progress) : EStateM.Result Halt World Value → Prop where
  | value {w₁} (all : p.failure = none) (world : SameButLog p.world w₁) :
      LeavesLast p (.ok (p.values.getLastD (.boolean false)) w₁)
  | failure {item halt w₁} (first : p.failure = some (item, halt)) (world : SameButLog p.world w₁) :
      LeavesLast p (.error halt w₁)
  | tooDeep {w₁} : LeavesLast p (.error .tooDeep w₁)

theorem eval_sequence {forms : Registry} (hforms : forms.lookup "do" = some .sequence)
    (path : String) (globals : FrameId) (items : List Queued) (h : SameButLog w w') :
    (progress limits path forms globals items w).LeavesLast
      (eval limits.rounds limits.depth forms globals
        (.apply (.word "do") (items.map Queued.program)) w') := by
  have hleaves := @mapM_of_progress limits w w' path forms globals items h
  rcases (eval_form_upToDepth hforms limits.rounds limits.depth globals
      (items.map Queued.program)).ends w' with ⟨_, w₁, hdeep, rfl, -⟩ | hturn
  · rw [hdeep]
    exact .tooDeep
  · rw [← hturn, Form.run_sequence]
    simp only [bind, EStateM.bind]
    generalize (items.map Queued.program).mapM (eval limits.rounds limits.depth forms globals) w' =
      values at hleaves
    cases hleaves with
    | values all world => exact .value all world
    | failure first world => exact .failure first world

namespace Desk

/-- The two desks differ at most in what the reporter is at, and in the world. -/
def RestsAs (w : World) (desk desk' : Desk) : Prop :=
  desk'.resting = desk.resting.inWorld w

variable {desk' : Desk}

theorem restsAs_resting (w : World) (desk : Desk) : desk.RestsAs w (desk.resting.inWorld w) :=
  congrArg (inWorld w) (resting_resting desk)

theorem RestsAs.progress (h : RestsAs w desk desk') (items : List Queued) :
    desk'.progress limits items = (desk.inWorld w).progress limits items := by
  have hdesk' : desk'.progress limits items = desk'.resting.progress limits items := rfl
  rw [hdesk', h]
  rfl

theorem RestsAs.doneWith (h : RestsAs w desk desk') (p : Progress) :
    desk'.doneWith p = desk.doneWith p := by
  have hresting : ∀ desk : Desk, desk.doneWith p = desk.resting.doneWith p := by
    intro desk
    rw [Desk.doneWith, ← resting_resting]
    rfl
  rw [hresting desk', h, hresting desk]
  rfl

theorem RestsAs.doneFirst (h : RestsAs w desk desk') (value : Value) (w₁ : World) :
    desk'.doneFirst value w₁ = desk.doneFirst value w₁ :=
  h.doneWith ⟨[(⟨"", .literal value, 0⟩, value)], none, w₁⟩

theorem RestsAs.stoppedAt (h : RestsAs w desk desk') (item : Queued) (p : Progress) :
    desk'.stoppedAt item p = desk.stoppedAt item p := by
  have hresting : ∀ desk : Desk, desk.stoppedAt item p = desk.resting.stoppedAt item p := by
    intro desk
    rw [Desk.stoppedAt, ← working_resting]
    rfl
  rw [hresting desk', h, hresting desk]
  rfl

end Desk

end CallScript
