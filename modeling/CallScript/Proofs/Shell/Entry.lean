import CallScript.Proofs.Session.Guarded
import CallScript.Shell.Basic
import CallScript.Proofs.Store.Maintains

/-!
# Work on an entry

How work on one entry of a shell ends, at a desk where nothing waits: at such a desk again, or stopped by
an error that the guard holds back, which leaves nothing waiting either. The program leaves the queue
before it is run, and its value leaves the results before it is shown, so neither is left behind wherever
the work stops. What the reporter was at is forgotten with its report.
-/

namespace CallScript

variable {limits : Limits} {desk : Desk}

namespace Desk

/-- No program waits to be run and no value to be shown, and errors do not end the process. -/
structure Cleared (desk : Desk) : Prop where
  queue : desk.session.queue = []
  results : desk.session.results = []
  forgiving : desk.session.reporter.fatal = false

/-- A cleared desk at which no text is being worked on. -/
structure AtRest (desk : Desk) : Prop extends Cleared desk where
  reporter : desk.session.reporter.AtRest

theorem Cleared.working (h : desk.Cleared) (source : String) (line : Int) :
    (desk.working source line).Cleared :=
  ⟨h.queue, h.results, h.forgiving⟩

theorem Cleared.inWorld (h : desk.Cleared) (w : World) : (desk.inWorld w).Cleared :=
  ⟨h.queue, h.results, h.forgiving⟩

theorem Cleared.idle (h : desk.Cleared) : desk.idle.AtRest :=
  ⟨⟨h.queue, h.results, h.forgiving⟩, desk.session.reporter.atRest_leaveAll⟩

theorem AtRest.inWorld (h : desk.AtRest) (w : World) : (desk.inWorld w).AtRest :=
  ⟨h.toCleared.inWorld w, h.reporter⟩

theorem AtRest.resting (h : desk.AtRest) : desk.resting.AtRest :=
  ⟨⟨h.queue, h.results, h.forgiving⟩, h.reporter.leave _⟩

end Desk

theorem atRest_start (forms : Registry) (fatal : Bool) (style : Text.Style) (writes verbose : Bool)
    (w : World) :
    (Session.start Session.console true forms (.fresh fatal style) writes verbose w).AtRest := by
  refine ⟨⟨rfl, rfl, rfl⟩, ?_⟩
  exact (Reporter.atRest_fresh fatal style).leave Session.console

namespace Shell

/-- How work on an entry ends: done, or stopped by an error that the guard holds back, at a cleared desk,
or by a loop that does not end. -/
inductive Ends (done : Desk → Prop) : EStateM.Result Raised Desk Unit → Prop where
  | done {desk'} (holds : done desk') : Ends done (.ok () desk')
  | complaint {d desk'} (cleared : desk'.Cleared) : Ends done (.error (.complaint d) desk')
  | exhausted {desk'} (cleared : desk'.Cleared) : Ends done (.error (.host .stackExhausted) desk')
  | endless {desk'} (cleared : desk'.Cleared) : Ends done (.error (.ofHalt .outOfRounds) desk')

theorem Ends.bind {first second : Desk → Prop} {task : Job Unit} {next : Unit → Job Unit}
    (h : Ends first (task desk)) (hnext : ∀ desk', first desk' → Ends second (next () desk')) :
    Ends second ((task >>= next) desk) := by
  generalize htask : task desk = result at h
  cases h with
  | done holds =>
    rw [Job.bind_ok htask]
    exact hnext _ holds
  | complaint cleared =>
    rw [Job.bind_error htask]
    exact .complaint cleared
  | exhausted cleared =>
    rw [Job.bind_error htask]
    exact .exhausted cleared
  | endless cleared =>
    rw [Job.bind_error htask]
    exact .endless cleared

/-- A desk at rest but for one program in its queue. -/
def Queues (desk : Desk) : Prop :=
  ∃ before : Desk, before.AtRest ∧ ∃ item, desk = before.queueing item

/-- A desk at rest but for one result. -/
def Keeps (desk : Desk) : Prop :=
  ∃ before : Desk, before.AtRest ∧ ∃ value, desk = before.keeping value

theorem add_ends (h : desk.AtRest) (text : String) (line : Int) :
    Ends Queues (Session.add limits text line desk) := by
  have hworking := h.toCleared.working text line
  rw [Session.add_eq]
  cases hparse : Grammar.parse limits.depth text with
  | error failure => cases failure <;> exact .complaint hworking
  | ok program =>
    simp only [Desk.resting_working]
    split
    · exact .exhausted h.resting.toCleared
    · exact .done ⟨_, h.resting.inWorld _, _, rfl⟩

theorem runQueued_ends (h : desk.AtRest) (item : Queued) :
    Ends Keeps (Session.runQueued limits item desk) := by
  have hworking := h.toCleared.working item.source item.line
  rw [Session.runQueued_eq]
  cases heval : eval limits.rounds limits.depth desk.session.forms desk.session.globals item.program
      desk.world with
  | error halt w =>
    cases halt with
    | fault cause => exact .complaint (hworking.inWorld w)
    | tooDeep => exact .complaint (hworking.inWorld w)
    | outOfRounds => exact .endless (hworking.inWorld w)
  | ok value w =>
    simp only
    split
    · exact .exhausted (hworking.inWorld w)
    · have hrest := (Desk.resting_working item.source item.line desk) ▸ h.resting
      exact .done ⟨_, hrest.inWorld _, value, rfl⟩

theorem run_ends (h : Queues desk) : Ends Keeps (Session.run limits desk) := by
  obtain ⟨before, hbefore, item, rfl⟩ := h
  rw [Session.run_queueing hbefore.queue]
  exact runQueued_ends hbefore item

theorem showValue_ends (h : desk.AtRest) (value : Value) :
    Ends Desk.AtRest (Session.showValue limits value desk) := by
  rw [Session.showValue]
  cases htext : value.text? limits.depth false with
  | none =>
    simp only [Session.textOf, htext]
    exact .exhausted h.toCleared
  | some text =>
    simp only [Session.textOf, htext]
    exact .done (h.inWorld _)

theorem showResults_keeping (h : desk.session.results = []) (value : Value) :
    showResults limits (desk.keeping value).session.results.length (desk.keeping value) =
      Session.showValue limits value desk := by
  have hresults : (desk.keeping value).session.results = [value] := by
    rw [Desk.keeping, h, List.nil_append]
  have hpop : Session.pop (desk.keeping value) = .ok value desk := by
    rw [Session.pop_eq, hresults]
    simp only [Desk.keeping, ← h]
  have hshow : (Session.showValue limits value >>= fun _ => pure ()) = Session.showValue limits value :=
    bind_pure_unit
  rw [hresults, List.length_singleton, showResults, Job.bind_ok hpop, showResults, hshow]

theorem showResults_ends (h : Keeps desk) :
    Ends Desk.AtRest (showResults limits desk.session.results.length desk) := by
  obtain ⟨before, hbefore, value, rfl⟩ := h
  rw [showResults_keeping hbefore.results]
  exact showValue_ends hbefore value

theorem runEntry_ends (h : desk.AtRest) (text : String) (line : Nat) :
    Ends Desk.AtRest (runEntry limits text line desk) := by
  refine (add_ends h text line).bind fun _ hqueues => ?_
  exact (run_ends hqueues).bind fun _ hkeeps => showResults_ends hkeeps

/-- The tree of a text is shown, unless the text is blank or has none, or there is no room for it. -/
theorem showTree_eq (text : String) (line : Nat) :
    showTree limits text line desk =
      if Text.isBlankText text.toList then .error (.complaint missingExpression) desk
      else match Grammar.parse limits.depth text with
        | .error e => .error (.ofParseError text e) (desk.working text line)
        | .ok tree =>
          if tree.fits limits.depth then
            .ok () ((desk.working text line).resting.inWorld
              (desk.world.withEvent (.answer (tree.outline 0 ++ "\n"))))
          else .error (.host .stackExhausted) (desk.working text line) := by
  rw [showTree]
  cases Text.isBlankText text.toList with
  | true => rfl
  | false =>
    simp only [Bool.false_eq_true, if_false]
    rw [get_bind]
    simp only [bind, EStateM.bind]
    cases hparse : Grammar.parse limits.depth text with
    | error failure => cases failure <;> rfl
    | ok tree =>
      cases hfits : tree.fits limits.depth <;> simp [hfits] <;> rfl

theorem showTree_ends (h : desk.AtRest) (text : String) (line : Nat) :
    Ends Desk.AtRest (showTree limits text line desk) := by
  have hworking := h.toCleared.working text line
  rw [showTree_eq]
  split
  · exact .complaint h.toCleared
  · cases Grammar.parse limits.depth text with
    | error failure =>
      cases failure with
      | refused refusal offset => exact .complaint hworking
      | tooDeep => exact .exhausted hworking
    | ok tree =>
      simp only [Desk.resting_working]
      split
      · exact .done (h.resting.inWorld _)
      · exact .exhausted hworking

theorem guarded_ends {task : Job Unit} (h : Ends Desk.AtRest (task desk)) :
    (∃ stopped desk', Job.guarded task desk = .ok stopped desk' ∧ desk'.AtRest) ∨
      ∃ desk', Job.guarded task desk = .error (.ofHalt .outOfRounds) desk' := by
  generalize htask : task desk = result at h
  cases h with
  | done holds => exact .inl ⟨_, _, Job.guarded_ok htask, holds⟩
  | complaint cleared =>
    exact .inl ⟨_, _, Job.guarded_suppressed htask cleared.forgiving, (cleared.inWorld _).idle⟩
  | exhausted cleared =>
    exact .inl ⟨_, _, Job.guarded_exhausted htask cleared.forgiving, (cleared.inWorld _).idle⟩
  | endless cleared => exact .inr (Job.guarded_endless htask cleared.forgiving)

/-- A line goes on with what is pending, and what this comes to waits for more or is worked on. -/
theorem enter_eq (shell : Shell) (line : String) : enter limits line shell =
    let number := shell.lineNumber + 1
    let first := if shell.pending.isEmpty then number else shell.startLine
    let entry := preprocess (shell.pending ++ line)
    if entry.2 then
      .ok () ⟨shell.desk, entry.1 ++ "\n", number, first, .continued⟩
    else if Text.isBlankText entry.1.toList then .ok () ⟨shell.desk, "", number, first, .first⟩
    else underGuard (runEntry limits entry.1 first) ⟨shell.desk, "", number, first, .first⟩ := by
  rw [enter, get_bind]
  dsimp only
  cases (preprocess (shell.pending ++ line)).2 with
  | true => rfl
  | false => cases Text.isBlankText (preprocess (shell.pending ++ line)).1.toList <;> rfl

end Shell

end CallScript
