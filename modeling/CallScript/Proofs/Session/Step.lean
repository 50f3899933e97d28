import CallScript.Proofs.Report.Traces
import CallScript.Proofs.Store.World
import CallScript.Session.Basic

/-!
# Steps of a session

What adding a text and running a queued program do to a desk, by equations: what they leave behind,
and what stops them. Later proofs use these equations and never open the functions themselves.
-/

namespace CallScript

variable {limits : Limits} {desk : Desk}

namespace Desk

def working (source : String) (line : Int) (desk : Desk) : Desk :=
  { desk with session := { desk.session with
      reporter := desk.session.reporter.enter desk.session.path source line } }

def resting (desk : Desk) : Desk :=
  { desk with session := { desk.session with
      reporter := desk.session.reporter.leave desk.session.path } }

def inWorld (world : World) (desk : Desk) : Desk :=
  { desk with world }

def noting (notice : Notice) (desk : Desk) : Desk :=
  desk.inWorld (desk.world.withEvent (.notice notice))

def queueing (item : Queued) (desk : Desk) : Desk :=
  { desk with session := { desk.session with queue := desk.session.queue ++ [item] } }

def keeping (value : Value) (desk : Desk) : Desk :=
  { desk with session := { desk.session with results := desk.session.results ++ [value] } }

def withoutQueue (desk : Desk) : Desk :=
  { desk with session := { desk.session with queue := [] } }

theorem withoutQueue_eq_self {desk : Desk} (h : desk.session.queue = []) : desk.withoutQueue = desk := by
  simp only [withoutQueue, ← h]

theorem resting_working (source : String) (line : Int) (desk : Desk) :
    (desk.working source line).resting = desk.resting := by
  simp only [resting, working, Reporter.leave_enter]

theorem working_resting (source : String) (line : Int) (desk : Desk) :
    desk.resting.working source line = desk.working source line := by
  simp only [resting, working, Reporter.leave, Reporter.enter_enter]

theorem resting_resting (desk : Desk) : desk.resting.resting = desk.resting := by
  simp only [resting, Reporter.leave, Reporter.enter_enter]

/-- The log is written out in full, and an entry in it would show something nested too deeply. -/
def CannotLog (limits : Limits) (notice : Notice) (desk : Desk) : Prop :=
  desk.session.verbose = true ∧ notice.fits limits.depth = false

instance (limits : Limits) (notice : Notice) (desk : Desk) :
    Decidable (desk.CannotLog limits notice) :=
  inferInstanceAs (Decidable (_ ∧ _))

end Desk

namespace Job

variable {α β : Type} {x : Job α} {f : α → Job β} {desk' : Desk}

theorem bind_ok {a : α} (h : x desk = .ok a desk') : (x >>= f) desk = f a desk' := by
  simp only [bind, EStateM.bind, h]

theorem bind_error {raised : Raised} (h : x desk = .error raised desk') :
    (x >>= f) desk = .error raised desk' := by
  simp only [bind, EStateM.bind, h]

theorem attempt_ok {run : Run α} {a : α} {w : World} (h : run desk.world = .ok a w) :
    attempt run desk = .ok (.ok a) (desk.inWorld w) := by
  rw [attempt, h]
  rfl

theorem attempt_error {run : Run α} {halt : Halt} {w : World}
    (h : run desk.world = .error halt w) :
    attempt run desk = .ok (.error halt) (desk.inWorld w) := by
  rw [attempt, h]
  rfl

end Job

namespace Session

theorem log_eq (notice : Notice) :
    log limits notice desk =
      (if (desk.session.verbose && !notice.fits limits.depth) = true then
        (throw (.host .stackExhausted) : Job Unit) >>= fun _ => Job.note (.notice notice)
      else Job.note (.notice notice)) desk :=
  rfl

theorem log_of_cannot {notice : Notice} (h : desk.CannotLog limits notice) :
    log limits notice desk = .error (.host .stackExhausted) desk := by
  rw [log_eq, if_pos (by simp [h.1, h.2])]
  rfl

theorem log_of_can {notice : Notice} (h : ¬ desk.CannotLog limits notice) :
    log limits notice desk = .ok () (desk.noting notice) := by
  rw [log_eq, if_neg (by simpa [Desk.CannotLog] using h)]
  rfl

/-- A text is queued, unless it is refused or its tree cannot be put into the log. -/
theorem add_eq (source : String) (line : Int) :
    add limits source line desk =
      match Grammar.parse limits.depth source with
      | .error .tooDeep => .error (.complaint .nestedTooDeeply) (desk.working source line)
      | .error (.refused refusal offset) =>
        .error (.complaint (.ofRefusal source refusal offset)) (desk.working source line)
      | .ok program =>
        if desk.CannotLog limits (.queued desk.session.path line program) then
          .error (.host .stackExhausted) (desk.working source line).resting
        else .ok () (((desk.working source line).resting.noting
          (.queued desk.session.path line program)).queueing ⟨source, program, line⟩) := by
  cases hparse : Grammar.parse limits.depth source with
  | error failure =>
    simp only [add, hparse]
    cases failure <;> rfl
  | ok program =>
    have hadd : add limits source line desk =
        (log limits (.queued desk.session.path line program) >>= fun _ =>
          Job.update fun s => { s with queue := s.queue ++ [⟨source, program, line⟩] })
          (desk.working source line).resting := by
      simp only [add, hparse]
      rfl
    rw [hadd]
    by_cases h : desk.CannotLog limits (.queued desk.session.path line program)
    · have hlog := @log_of_cannot limits (desk.working source line).resting _ h
      simp only [if_pos h, Job.bind_error hlog]
    · have hlog := @log_of_can limits (desk.working source line).resting _ h
      simp only [if_neg h, Job.bind_ok hlog]
      rfl

/-- What is done once a queued program has been evaluated. -/
def conclude (limits : Limits) (path : String) (line : Int) : Except Halt Value → Job Unit
  | .error .tooDeep => throw (.complaint .recursionTooDeep)
  | .error halt => throw (.ofHalt halt)
  | .ok value => do
    log limits (.evaluated path line value)
    Job.update fun s => { s with results := s.results ++ [value] }
    Job.updateReporter (·.leave path)

/-- A queued program leaves its value, unless it fails or its value cannot be put into the log. -/
theorem runQueued_eq (item : Queued) :
    runQueued limits item desk =
      match eval limits.rounds limits.depth desk.session.forms desk.session.globals item.program
        desk.world with
      | .error .tooDeep w =>
        .error (.complaint .recursionTooDeep) ((desk.working item.source item.line).inWorld w)
      | .error halt w =>
        .error (.ofHalt halt) ((desk.working item.source item.line).inWorld w)
      | .ok value w =>
        if desk.CannotLog limits (.evaluated desk.session.path item.line value) then
          .error (.host .stackExhausted) ((desk.working item.source item.line).inWorld w)
        else .ok () ((((desk.working item.source item.line).inWorld w).noting
          (.evaluated desk.session.path item.line value)).keeping value).resting := by
  have hrun : runQueued limits item desk =
      (Job.attempt (eval limits.rounds limits.depth desk.session.forms desk.session.globals
        item.program) >>= conclude limits desk.session.path item.line)
        (desk.working item.source item.line) := rfl
  rw [hrun]
  cases heval : eval limits.rounds limits.depth desk.session.forms desk.session.globals item.program
      desk.world with
  | error halt w =>
    rw [Job.bind_ok (@Job.attempt_error (desk.working item.source item.line) _ _ _ _ heval)]
    cases halt <;> rfl
  | ok value w =>
    rw [Job.bind_ok (@Job.attempt_ok (desk.working item.source item.line) _ _ _ _ heval)]
    by_cases h : desk.CannotLog limits (.evaluated desk.session.path item.line value)
    · have hlog := @log_of_cannot limits ((desk.working item.source item.line).inWorld w) _ h
      simp only [conclude, if_pos h, Job.bind_error hlog]
    · have hlog := @log_of_can limits ((desk.working item.source item.line).inWorld w) _ h
      simp only [conclude, if_neg h, Job.bind_ok hlog]
      rfl

theorem runAll_cons (item : Queued) (rest : List Queued) :
    runAll limits (item :: rest) = runQueued limits item >>= fun _ => runAll limits rest :=
  rfl

theorem pop_eq :
    pop desk = match desk.session.results with
      | [] => .error (.host .noResult) desk
      | value :: rest =>
        .ok value { desk with session := { desk.session with results := rest } } := by
  cases desk with
  | mk session world =>
    cases session with
    | mk path interactive forms root globals queue results => cases results <;> rfl

theorem run_eq : run limits desk = runAll limits desk.session.queue desk.withoutQueue :=
  rfl

theorem run_queueing (h : desk.session.queue = []) (item : Queued) :
    run limits (desk.queueing item) = runQueued limits item desk := by
  have hqueue : (desk.queueing item).session.queue = [item] := by
    rw [Desk.queueing, h, List.nil_append]
  have hdesk : (desk.queueing item).withoutQueue = desk := Desk.withoutQueue_eq_self h
  rw [run_eq, hqueue, hdesk]
  exact congrFun (bind_pure_unit (x := runQueued limits item)) desk

end Session

end CallScript
