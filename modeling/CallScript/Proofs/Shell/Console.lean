import CallScript.Proofs.Shell.Entry

/-!
# Sessions at a console

A session at a console works on no file but the console, and its reporter keeps its style, whatever is
typed and however work on it ends. An error that has a place in a source text comes from reading this
text; no program that runs, and no value that is shown, is stopped by such an error.
-/

namespace CallScript

variable {limits : Limits} {desk : Desk} {style : Text.Style}

theorem Reporter.throw_reporter (r : Reporter) (d : Diagnostic) :
    (r.throw d).reporter = r ∨ (r.throw d).reporter = r.leaveAll := by
  rw [throw]
  split
  · exact .inl rfl
  · exact .inr rfl

/-- Whatever the guard deals with, it leaves the reporter as it is or at no text. -/
theorem Reporter.guard_reporter (r : Reporter) (raised : Raised) :
    (r.guard raised).reporter = r ∨ (r.guard raised).reporter = r.leaveAll := by
  cases raised with
  | complaint d => exact r.throw_reporter d
  | exit code => exact .inl rfl
  | host fault =>
    cases fault with
    | interrupted => exact r.throw_reporter _
    | stackExhausted => exact r.throw_reporter _
    | _ =>
      simp only [guard]
      split <;> exact r.throw_reporter _

namespace Desk

/-- The session works on the console, and its reporter knows of no other file. -/
structure AtConsole (style : Text.Style) (desk : Desk) : Prop where
  path : desk.session.path = Session.console
  style : desk.session.reporter.style = style
  files : ∃ text line, desk.session.reporter.traces = [⟨Session.console, text, line⟩]

/-- A desk at a console stays one. -/
def StaysAtConsole (style : Text.Style) (before after : Desk) : Prop :=
  before.AtConsole style → after.AtConsole style

theorem lasting_staysAtConsole (style : Text.Style) : Lasting (StaysAtConsole style) :=
  ⟨fun _ => id, fun h h' => h' ∘ h⟩

variable (h : desk.AtConsole style)
include h

theorem AtConsole.traces_working (source : String) (line : Int) :
    (desk.working source line).session.reporter.traces = [⟨Session.console, source, line⟩] := by
  obtain ⟨text, line', htraces⟩ := h.files
  simp only [working, Reporter.enter, htraces, h.path, Reporter.setTrace, if_true]

theorem AtConsole.working (source : String) (line : Int) :
    (desk.working source line).AtConsole style :=
  ⟨h.path, h.style, _, _, h.traces_working source line⟩

theorem AtConsole.resting : desk.resting.AtConsole style := by
  obtain ⟨text, line, htraces⟩ := h.files
  refine ⟨h.path, h.style, none, none, ?_⟩
  simp only [Desk.resting, Reporter.leave, Reporter.enter, htraces, h.path, Reporter.setTrace, if_true]

/-- Other changes leave the path and the reporter alone. -/
theorem AtConsole.same {desk' : Desk} (hpath : desk'.session.path = desk.session.path)
    (hreporter : desk'.session.reporter = desk.session.reporter) : desk'.AtConsole style :=
  ⟨hpath.trans h.path, hreporter ▸ h.style, hreporter ▸ h.files⟩

theorem AtConsole.leaveAll {desk' : Desk} (hpath : desk'.session.path = desk.session.path)
    (hreporter : desk'.session.reporter = desk.session.reporter.leaveAll) :
    desk'.AtConsole style := by
  obtain ⟨text, line, htraces⟩ := h.files
  refine ⟨hpath.trans h.path, ?_, none, none, ?_⟩
  · rw [hreporter]
    exact h.style
  · rw [hreporter]
    simp only [Reporter.leaveAll, htraces, List.map_cons, List.map_nil]

end Desk

theorem atConsole_start (forms : Registry) (fatal : Bool) (style : Text.Style) (writes verbose : Bool)
    (w : World) :
    (Session.start Session.console true forms (.fresh fatal style) writes verbose w).AtConsole style :=
  ⟨rfl, rfl, none, none, rfl⟩

open Desk

namespace Session

theorem add_staysAtConsole (source : String) (line : Int) :
    Maintains (StaysAtConsole style) (add limits source line) := by
  intro desk h
  have hworking := h.working source line
  rw [stateAfter, add_eq]
  cases Grammar.parse limits.depth source with
  | error failure => cases failure <;> exact hworking
  | ok program =>
    by_cases hcannot : desk.CannotLog limits (.queued desk.session.path line program)
    · simp only [if_pos hcannot]
      exact hworking.resting
    · simp only [if_neg hcannot]
      exact hworking.resting.same rfl rfl

theorem runQueued_staysAtConsole (item : Queued) :
    Maintains (StaysAtConsole style) (runQueued limits item) := by
  intro desk h
  have hworking := h.working item.source item.line
  rw [stateAfter, runQueued_eq]
  cases eval limits.rounds limits.depth desk.session.forms desk.session.globals item.program
      desk.world with
  | error halt w => cases halt <;> exact hworking.same rfl rfl
  | ok value w =>
    by_cases hcannot : desk.CannotLog limits (.evaluated desk.session.path item.line value)
    · simp only [if_pos hcannot]
      exact hworking.same rfl rfl
    · simp only [if_neg hcannot]
      exact AtConsole.resting (hworking.same rfl rfl)

theorem run_staysAtConsole : Maintains (StaysAtConsole style) (run limits) := by
  have hR := lasting_staysAtConsole style
  have hall : ∀ items, Maintains (StaysAtConsole style) (runAll limits items) := by
    intro items
    induction items with
    | nil => exact .pure hR ()
    | cons item rest ih => exact .bind hR (runQueued_staysAtConsole item) fun _ => ih
  intro desk h
  exact hall desk.session.queue desk.withoutQueue (h.same rfl rfl)

theorem pop_staysAtConsole : Maintains (StaysAtConsole style) pop := by
  intro desk h
  rw [stateAfter, pop_eq]
  cases desk.session.results with
  | nil => exact h
  | cons value rest => exact h.same rfl rfl

theorem showValue_staysAtConsole (value : Value) :
    Maintains (StaysAtConsole style) (showValue limits value) := by
  rw [showValue]
  cases textOf limits value with
  | ok text => exact .modify fun desk h => h.same rfl rfl
  | error raised => exact .throw (lasting_staysAtConsole style) raised

end Session

namespace Shell

theorem runEntry_staysAtConsole (limits : Limits) (text : String) (line : Nat) :
    Maintains (StaysAtConsole style) (runEntry limits text line) := by
  have hR := lasting_staysAtConsole style
  have hshow : ∀ count, Maintains (StaysAtConsole style) (showResults limits count) := by
    intro count
    induction count with
    | zero => exact .pure hR ()
    | succ count ih =>
      refine .bind hR Session.pop_staysAtConsole fun value => ?_
      exact .bind hR (Session.showValue_staysAtConsole value) fun _ => ih
  refine .bind hR (Session.add_staysAtConsole text line) fun _ => ?_
  refine .bind hR Session.run_staysAtConsole fun _ => ?_
  exact .bind hR (.get hR) fun _ => hshow _

theorem showTree_staysAtConsole (limits : Limits) (text : String) (line : Nat) :
    Maintains (StaysAtConsole style) (showTree limits text line) := by
  intro desk h
  have hworking := h.working text line
  rw [stateAfter, showTree_eq]
  cases Text.isBlankText text.toList with
  | true => exact h
  | false =>
    cases Grammar.parse limits.depth text with
    | error failure => exact hworking
    | ok tree =>
      cases hfits : tree.fits limits.depth with
      | true =>
        simp only [hfits, if_true, Bool.false_eq_true, if_false]
        exact hworking.resting.same rfl rfl
      | false =>
        simp only [hfits, Bool.false_eq_true, if_false]
        exact hworking

/-- What the guard does about an error does not lead away from the console either. -/
theorem guarded_staysAtConsole {task : Job Unit} (htask : Maintains (StaysAtConsole style) task) :
    Maintains (StaysAtConsole style) (Job.guarded task) := by
  intro desk h
  have hafter := htask desk h
  cases hrun : task desk with
  | ok _ desk' =>
    rw [stateAfter_of_ok hrun] at hafter
    rwa [stateAfter_of_ok (Job.guarded_ok hrun)]
  | error raised desk' =>
    rw [stateAfter_of_error hrun] at hafter
    simp only [stateAfter, Job.guarded, hrun]
    have hreporter := Reporter.guard_reporter desk'.session.reporter raised
    rcases hreporter with hsame | hforgot <;>
      cases (desk'.session.reporter.guard raised).verdict
    · exact hafter.same rfl hsame
    · exact hafter.same rfl hsame
    · exact hafter.leaveAll rfl hforgot
    · exact hafter.leaveAll rfl hforgot

end Shell

/-- No error that stops the work is reported with a place. -/
def Unplaced {α : Type} (task : Job α) : Prop :=
  ∀ desk d desk', task desk = .error (.complaint d) desk' → Reporter.isLocated d = false

namespace Unplaced

theorem pure {α : Type} (a : α) : Unplaced (pure a : Job α) := by
  rintro desk d desk' ⟨⟩

theorem bind {α β : Type} {task : Job α} {next : α → Job β} (htask : Unplaced task)
    (hnext : ∀ a, Unplaced (next a)) : Unplaced (task >>= next) := by
  intro desk d desk' h
  cases hrun : task desk with
  | ok a desk'' =>
    rw [Job.bind_ok hrun] at h
    exact hnext a desk'' d desk' h
  | error raised desk'' =>
    rw [Job.bind_error hrun] at h
    cases h
    exact htask desk d _ hrun

end Unplaced

theorem isLocated_ofFault (cause : Fault) : Reporter.isLocated (.ofFault cause) = false := by
  simp [Reporter.isLocated, Diagnostic.ofFault]

namespace Session

theorem unplaced_runQueued (item : Queued) : Unplaced (runQueued limits item) := by
  intro desk d desk' h
  rw [runQueued_eq] at h
  cases heval : eval limits.rounds limits.depth desk.session.forms desk.session.globals item.program
      desk.world with
  | error halt w =>
    rw [heval] at h
    cases halt with
    | fault cause =>
      cases h
      exact isLocated_ofFault cause
    | tooDeep =>
      cases h
      rfl
    | outOfRounds => cases h
  | ok value w =>
    simp only [heval] at h
    split at h <;> cases h

theorem unplaced_run : Unplaced (run limits) := by
  have hall : ∀ items, Unplaced (runAll limits items) := by
    intro items
    induction items with
    | nil => exact .pure ()
    | cons item rest ih => exact .bind (unplaced_runQueued item) fun _ => ih
  intro desk d desk' h
  exact hall desk.session.queue desk.withoutQueue d desk' h

theorem unplaced_pop : Unplaced pop := by
  intro desk d desk' h
  rw [pop_eq] at h
  cases hresults : desk.session.results <;> rw [hresults] at h <;> cases h

theorem unplaced_showValue (value : Value) : Unplaced (showValue limits value) := by
  intro desk d desk' h
  rw [showValue, textOf] at h
  cases htext : value.text? limits.depth false <;> rw [htext] at h <;> cases h

end Session

namespace Shell

theorem unplaced_showResults (count : Nat) : Unplaced (showResults limits count) := by
  induction count with
  | zero => exact .pure ()
  | succ count ih =>
    refine .bind Session.unplaced_pop fun value => ?_
    exact .bind (Session.unplaced_showValue value) fun _ => ih

/-- Work on an entry that is stopped by an error with a place: the entry is refused. -/
theorem refused_of_runEntry {text : String} {line : Nat} {d : Diagnostic} {desk' : Desk}
    (h : runEntry limits text line desk = .error (.complaint d) desk')
    (hlocated : Reporter.isLocated d = true) :
    ∃ refusal offset, Grammar.parse limits.depth text = .error (.refused refusal offset) ∧
      d = .ofRefusal text refusal offset ∧ desk' = desk.working text line := by
  -- Once a program is queued, none of its errors has a place.
  have hbehind : Unplaced (do
      Session.run limits
      showResults limits (← get).session.results.length : Job Unit) := by
    refine .bind Session.unplaced_run fun _ => ?_
    intro desk d desk' h
    exact unplaced_showResults _ desk d desk' h
  have hadd := @Session.add_eq limits desk text line
  rw [runEntry] at h
  cases hparse : Grammar.parse limits.depth text with
  | error failure =>
    cases failure with
    | tooDeep =>
      simp only [hparse] at hadd
      rw [Job.bind_error hadd] at h
      cases h
      cases hlocated
    | refused refusal offset =>
      simp only [hparse] at hadd
      rw [Job.bind_error hadd] at h
      cases h
      exact ⟨refusal, offset, rfl, rfl, rfl⟩
  | ok program =>
    simp only [hparse] at hadd
    split at hadd
    · rw [Job.bind_error hadd] at h
      cases h
    · rw [Job.bind_ok hadd] at h
      rw [hbehind _ d desk' h] at hlocated
      cases hlocated

end Shell

end CallScript
