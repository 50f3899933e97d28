import CallScript.Proofs.Session.Step

/-!
# Work under the guard

What becomes of work under the reporter's guard: work that is done stays as it is, and an error of the
language is reported. Then the process is to end if errors are fatal, and else the guard lets nothing
through.
-/

namespace CallScript

/-- Every report says something. -/
theorem Reporter.isEmpty_report (r : Reporter) (d : Diagnostic) : (r.report d).isEmpty = false := by
  rw [String.isEmpty_eq_false_iff]
  simp [Reporter.report, String.append_eq_empty_iff]

def Desk.reporting (d : Diagnostic) (desk : Desk) : Desk :=
  desk.inWorld (desk.world.withEvent (.report (desk.session.reporter.report d)))

/-- The reporter knows that no text at all is being worked on. -/
def Desk.idle (desk : Desk) : Desk :=
  { desk with session := { desk.session with reporter := desk.session.reporter.leaveAll } }

namespace Job

variable {task : Job Unit} {desk desk' : Desk} {d : Diagnostic}

theorem guarded_ok (h : task desk = .ok () desk') : guarded task desk = .ok false desk' := by
  rw [guarded, h]

theorem guarded_fatal (h : task desk = .error (.complaint d) desk')
    (hfatal : desk'.session.reporter.fatal = true) :
    guarded task desk = .error (.exit (some 1)) (desk'.reporting d) := by
  rw [guarded, h]
  simp only [Reporter.guard, Reporter.throw, hfatal, if_true, Reporter.isEmpty_report]
  rfl

theorem guarded_suppressed (h : task desk = .error (.complaint d) desk')
    (hfatal : desk'.session.reporter.fatal = false) :
    guarded task desk = .ok true (desk'.reporting d).idle := by
  rw [guarded, h]
  simp only [Reporter.guard, Reporter.throw, hfatal, Bool.false_eq_true, if_false,
    Reporter.isEmpty_report]
  rfl

theorem guarded_exhausted (h : task desk = .error (.host .stackExhausted) desk')
    (hfatal : desk'.session.reporter.fatal = false) :
    guarded task desk = .ok true (desk'.reporting
      { kind := .recursion, message := Diagnostic.depthExceeded }).idle := by
  rw [guarded, h]
  simp only [Reporter.guard, Reporter.throw, hfatal, Bool.false_eq_true, if_false,
    Reporter.isEmpty_report]
  rfl

theorem guarded_endless (h : task desk = .error (.ofHalt .outOfRounds) desk')
    (hfatal : desk'.session.reporter.fatal = false) :
    ∃ desk'', guarded task desk = .error (.ofHalt .outOfRounds) desk'' := by
  rw [guarded, h]
  simp only [Raised.ofHalt, Reporter.guard, Reporter.throw, hfatal, Bool.false_eq_true, if_false]
  exact ⟨_, rfl⟩

end Job

end CallScript
