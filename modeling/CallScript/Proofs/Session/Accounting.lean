import CallScript.Proofs.Session.Batch
import CallScript.Proofs.Session.Errors

/-!
# Accounts of a session

What becomes of the texts that are added to a session. Every text that has a tree is queued, every
queued program is evaluated at most once, in order, and every value stays among the results until it is
taken. A text that is refused changes nothing but what the reporter is at, and a program that fails keeps
what was done before it. The accounts are kept from the texts, the evaluations and the values alone, and
then compared with the queue and the results.
-/

namespace CallScript.Session

variable {limits : Limits}

/-- What the reporter knows of the session's own file. -/
def entry (s : Session) : Option Trace :=
  s.reporter.traces.find? (·.path = s.path)

theorem entry_working (source : String) (line : Int) (desk : Desk) :
    (desk.working source line).session.entry = some ⟨desk.session.path, some source, some line⟩ :=
  Reporter.find?_setTrace ⟨desk.session.path, some source, some line⟩ desk.session.reporter.traces

theorem entry_resting (desk : Desk) :
    desk.resting.session.entry = some ⟨desk.session.path, none, none⟩ :=
  Reporter.find?_setTrace ⟨desk.session.path, none, none⟩ desk.session.reporter.traces

/-- How adding a text ends: it is queued, or it changes nothing but what the reporter is at. If the log
stops it, nothing is queued, and the reporter is at no text. -/
inductive AddOutcome (limits : Limits) (source : String) (line : Int) (desk : Desk) :
    EStateM.Result Raised Desk Unit → Prop where
  | queued {program desk'} (parsed : Grammar.parse limits.depth source = .ok program)
      (queue : desk'.session.queue = desk.session.queue ++ [⟨source, program, line⟩])
      (results : desk'.session.results = desk.session.results)
      (frames : desk'.world.frames = desk.world.frames)
      (entry : desk'.session.entry = some ⟨desk.session.path, none, none⟩) :
      AddOutcome limits source line desk (.ok () desk')
  | failed {raised} (refused : ∀ program, Grammar.parse limits.depth source ≠ .ok program)
      (entry : (desk.working source line).session.entry =
        some ⟨desk.session.path, some source, some line⟩) :
      AddOutcome limits source line desk (.error raised (desk.working source line))
  | unlogged {program desk'} (parsed : Grammar.parse limits.depth source = .ok program)
      (cannot : desk.CannotLog limits (.queued desk.session.path line program))
      (queue : desk'.session.queue = desk.session.queue)
      (results : desk'.session.results = desk.session.results) (world : desk'.world = desk.world)
      (entry : desk'.session.entry = some ⟨desk.session.path, none, none⟩) :
      AddOutcome limits source line desk (.error (.host .stackExhausted) desk')

theorem add_outcome (source : String) (line : Int) (desk : Desk) :
    AddOutcome limits source line desk (add limits source line desk) := by
  rw [add_eq]
  cases hparse : Grammar.parse limits.depth source with
  | error failure =>
    have hrefused : ∀ program, Grammar.parse limits.depth source ≠ .ok program := by
      intro program h
      rw [hparse] at h
      cases h
    cases failure <;> exact .failed hrefused (entry_working source line desk)
  | ok program =>
    simp only
    split
    · rename_i hcannot
      exact .unlogged hparse hcannot rfl rfl rfl (entry_resting (desk.working source line))
    · exact .queued hparse rfl rfl rfl (entry_resting (desk.working source line))

/-- How the run of the queue ends: every program left its value, or one of them failed behind others
that all left theirs. If the log stops the run, it does so at a program that gave a value, behind others
that left theirs; this one value is lost, and all else is as where a program fails. -/
inductive RunOutcome (limits : Limits) (desk : Desk) : EStateM.Result Raised Desk Unit → Prop where
  | idle (empty : desk.session.queue = []) : RunOutcome limits desk (.ok () desk)
  | done {done w desk'} (nonempty : desk.session.queue ≠ [])
      (each : done.map Prod.fst = desk.session.queue)
      (progress : desk.progress limits desk.session.queue = ⟨done, none, w⟩)
      (queue : desk'.session.queue = [])
      (results : desk'.session.results = desk.session.results ++ done.map Prod.snd)
      (world : desk'.world = w) (entry : desk'.session.entry = some ⟨desk.session.path, none, none⟩) :
      RunOutcome limits desk (.ok () desk')
  /-- The world is left as the failing program left it, which wrote at most to names that it
  defines. -/
  | failed {done item after halt w w' desk'}
      (progress : desk.progress limits desk.session.queue = ⟨done, some (item, halt), w'⟩)
      (order : desk.session.queue = done.map Prod.fst ++ item :: after)
      (earlier : desk.progress limits (done.map Prod.fst) = ⟨done, none, w⟩)
      (fails : eval limits.rounds limits.depth desk.session.forms desk.session.globals item.program w =
        .error halt w')
      (queue : desk'.session.queue = [])
      (results : desk'.session.results = desk.session.results ++ done.map Prod.snd)
      (world : desk'.world = w')
      (kept : OnlyWrites desk.session.globals (Defines desk.session.forms · item.program) w w')
      (entry : desk'.session.entry =
        some ⟨desk.session.path, some item.source, some item.line⟩) :
      RunOutcome limits desk (.error (.ofProgram halt) desk')
  | unlogged {done item after value w w' desk'} (full : desk.session.verbose = true)
      (order : desk.session.queue = done.map Prod.fst ++ item :: after)
      (earlier : desk.progress limits (done.map Prod.fst) = ⟨done, none, w⟩)
      (gives : eval limits.rounds limits.depth desk.session.forms desk.session.globals item.program w =
        .ok value w')
      (deep : value.fits limits.depth = false) (queue : desk'.session.queue = [])
      (results : desk'.session.results = desk.session.results ++ done.map Prod.snd)
      (world : desk'.world = w')
      (kept : OnlyWrites desk.session.globals (Defines desk.session.forms · item.program) w w')
      (entry : desk'.session.entry =
        some ⟨desk.session.path, some item.source, some item.line⟩) :
      RunOutcome limits desk (.error (.host .stackExhausted) desk')

theorem RunLeaves.outcome {desk : Desk} {p : Progress} {result : EStateM.Result Raised Desk Unit}
    (hnonempty : desk.session.queue ≠ []) (hp : desk.progress limits desk.session.queue = p)
    (h : RunLeaves limits desk.session.queue p desk.withoutQueue result) :
    RunOutcome limits desk result := by
  have hsplits : Splits limits desk.session.path desk.session.forms desk.session.globals
      desk.session.queue desk.world p := hp ▸ progress_splits _ _ _ _ desk.session.queue desk.world
  have hwrites := fun item : Queued => eval_writesDefined limits.rounds limits.depth
    desk.session.forms desk.session.globals item.program
  obtain ⟨done, failure, w'⟩ := p
  cases h with
  | done all =>
    cases hsplits with
    | all none each =>
      subst none
      exact .done hnonempty each hp rfl rfl rfl (entry_resting _)
    | failed first => cases all.symm.trans first
  | failed first =>
    cases hsplits with
    | all none => cases none.symm.trans first
    | failed first' order earlier fails =>
      cases first.symm.trans first'
      subst first
      exact .failed hp order earlier fails rfl rfl rfl ((hwrites _).of_error fails)
        (entry_working _ _ _)
  | @unlogged done item w' why =>
    obtain ⟨hfull, ⟨after, horder⟩, w, value, hearlier, hgives, hdeep⟩ := why
    exact .unlogged hfull horder hearlier hgives hdeep rfl rfl rfl ((hwrites item).of_ok hgives)
      (entry_working _ _ _)

theorem run_outcome (desk : Desk) : RunOutcome limits desk (run limits desk) := by
  rw [run_eq]
  cases hqueue : desk.session.queue with
  | nil =>
    rw [Desk.withoutQueue_eq_self hqueue]
    exact .idle hqueue
  | cons next rest =>
    have hleaves := @runAll_leaves limits next rest desk.withoutQueue
    rw [← hqueue] at hleaves ⊢
    exact hleaves.outcome (hqueue ▸ List.cons_ne_nil next rest) rfl

/-- What becomes of programs and values. -/
structure Ledger where
  added : List Queued
  /-- The programs that were evaluated, with their values if they left one. -/
  attempts : List (Queued × Option Value)
  popped : List Value

def Step.ledger (limits : Limits) (desk : Desk) : Step → Ledger
  | add source line =>
    match Grammar.parse limits.depth source with
    | .ok program => ⟨[⟨source, program, line⟩], [], []⟩
    | .error _ => ⟨[], [], []⟩
  | run => ⟨[], (desk.progress limits desk.session.queue).attempts, []⟩
  | pop => ⟨[], [], desk.session.results.take 1⟩

def Ledger.append (l l' : Ledger) : Ledger :=
  ⟨l.added ++ l'.added, l.attempts ++ l'.attempts, l.popped ++ l'.popped⟩

/-- The accounts of steps taken one after another. -/
def ledger (limits : Limits) : Desk → List Step → Ledger
  | _, [] => ⟨[], [], []⟩
  | desk, step :: rest => (step.ledger limits desk).append (ledger limits (step.after limits desk) rest)

/-- The values that programs left are those that were taken and those that are still there. What was
evaluated and what is still queued comes, in this order and at most once each, from what was queued. -/
structure Balanced (l : Ledger) (before after : Desk) : Prop where
  values : l.popped ++ after.session.results =
    before.session.results ++ l.attempts.filterMap Prod.snd
  order : (l.attempts.map Prod.fst ++ after.session.queue).Sublist (before.session.queue ++ l.added)

theorem Balanced.append {l l' : Ledger} {first second third : Desk} (h : Balanced l first second)
    (h' : Balanced l' second third) : Balanced (l.append l') first third := by
  constructor
  · rw [Ledger.append, List.append_assoc, h'.values, ← List.append_assoc, h.values, List.append_assoc,
      List.filterMap_append]
  · have hlater := h'.order.append_left (l.attempts.map Prod.fst)
    rw [← List.append_assoc, ← List.append_assoc] at hlater
    simpa only [Ledger.append, List.map_append, List.append_assoc] using
      hlater.trans (h.order.append_right l'.added)

/-- The step is no run that the log stops. -/
def Step.Logged (limits : Limits) (desk : Desk) : Step → Prop
  | run => ∀ desk', Session.run limits desk ≠ .error (.host .stackExhausted) desk'
  | _ => True

/-- The log stops none of the runs. -/
def Logged (limits : Limits) : Desk → List Step → Prop
  | _, [] => True
  | desk, step :: rest => step.Logged limits desk ∧ Logged limits (step.after limits desk) rest

theorem balanced_add (source : String) (line : Int) (desk : Desk) :
    Balanced ((Step.add source line).ledger limits desk) desk
      (stateAfter (add limits source line) desk) := by
  have hends := @add_outcome limits source line desk
  generalize hadd : add limits source line desk = result at hends
  cases hends with
  | queued parsed queue results =>
    rw [stateAfter_of_ok hadd]
    simp only [Step.ledger, parsed]
    exact ⟨by simp [results], by simp [queue]⟩
  | failed refused =>
    rw [stateAfter_of_error hadd, Step.ledger]
    cases hparse : Grammar.parse limits.depth source with
    | ok program => exact absurd hparse (refused program)
    | error failure => exact ⟨by simp [Desk.working], by simp [Desk.working]⟩
  | unlogged parsed cannot queue results =>
    rw [stateAfter_of_error hadd]
    simp only [Step.ledger, parsed]
    exact ⟨by simp [results], by simp [queue]⟩

theorem balanced_run {desk : Desk} (h : Step.run.Logged limits desk) :
    Balanced (Step.run.ledger limits desk) desk (stateAfter (run limits) desk) := by
  have horder : ((desk.progress limits desk.session.queue).attempts.map Prod.fst).Sublist
      desk.session.queue :=
    (progress_splits limits desk.session.path desk.session.forms desk.session.globals
      desk.session.queue desk.world).attempts_inOrder.sublist
  have hends := @run_outcome limits desk
  generalize hrun : run limits desk = result at hends
  cases hends with
  | idle empty =>
    rw [stateAfter_of_ok hrun]
    refine ⟨by simp [Step.ledger, Desk.progress, progress, Progress.attempts, empty], ?_⟩
    simp [Step.ledger, Desk.progress, progress, Progress.attempts, empty]
  | done nonempty each progress queue results =>
    rw [stateAfter_of_ok hrun]
    refine ⟨?_, by simpa [Step.ledger, queue] using horder⟩
    rw [Step.ledger, Progress.filterMap_attempts, progress, results]
    rfl
  | failed progress order earlier fails queue results =>
    rw [stateAfter_of_error hrun]
    refine ⟨?_, by simpa [Step.ledger, queue] using horder⟩
    rw [Step.ledger, Progress.filterMap_attempts, progress, results]
    rfl
  | unlogged => exact absurd hrun (h _)

theorem balanced_pop (desk : Desk) :
    Balanced (Step.pop.ledger limits desk) desk (stateAfter pop desk) := by
  rw [stateAfter, pop_eq]
  cases hresults : desk.session.results with
  | nil => exact ⟨by simp [Step.ledger, hresults], by simp [Step.ledger]⟩
  | cons value rest => exact ⟨by simp [Step.ledger, hresults], by simp [Step.ledger]⟩

theorem balanced_after (desk : Desk) (steps : List Step) (h : Logged limits desk steps) :
    Balanced (ledger limits desk steps) desk (after limits desk steps) := by
  induction steps generalizing desk with
  | nil => exact ⟨by simp [ledger, after], by simp [ledger, after]⟩
  | cons step rest ih =>
    have hstep : Balanced (step.ledger limits desk) desk (step.after limits desk) := by
      cases step with
      | add source line => exact balanced_add source line desk
      | run => exact balanced_run h.1
      | pop => exact balanced_pop desk
    exact hstep.append (ih _ h.2)

theorem ofProgram_ne_stackExhausted (halt : Halt) :
    Raised.ofProgram halt ≠ .host .stackExhausted := by
  cases halt <;> simp [Raised.ofProgram, Raised.ofHalt]

theorem RunOutcome.ne_stackExhausted {desk desk' : Desk} (hshort : desk.session.verbose = false)
    {result : EStateM.Result Raised Desk Unit} (h : RunOutcome limits desk result) :
    result ≠ .error (.host .stackExhausted) desk' := by
  cases h with
  | idle => exact nofun
  | done => exact nofun
  | @failed done item after halt =>
    intro heq
    injection heq with hraised
    exact ofProgram_ne_stackExhausted halt hraised
  | unlogged full => exact absurd (hshort.symm.trans full) Bool.false_ne_true

theorem verbose_after_add (source : String) (line : Int) (desk : Desk) :
    (stateAfter (add limits source line) desk).session.verbose = desk.session.verbose := by
  rw [stateAfter, add_eq]
  cases Grammar.parse limits.depth source with
  | error failure => cases failure <;> rfl
  | ok program =>
    by_cases hcannot : desk.CannotLog limits (.queued desk.session.path line program)
    · simp only [if_pos hcannot]
      rfl
    · simp only [if_neg hcannot]
      rfl

theorem verbose_after_run (desk : Desk) :
    (stateAfter (run limits) desk).session.verbose = desk.session.verbose := by
  rw [stateAfter, run_eq]
  cases desk.session.queue with
  | nil => rfl
  | cons item rest =>
    have hleaves := @runAll_leaves limits item rest desk.withoutQueue
    generalize runAll limits (item :: rest) desk.withoutQueue = result at hleaves
    cases hleaves with
    | done | failed | unlogged => rfl

/-- With a short log no run is stopped by the log. -/
theorem logged_of_short {desk : Desk} (h : desk.session.verbose = false) (steps : List Step) :
    Logged limits desk steps := by
  induction steps generalizing desk with
  | nil => trivial
  | cons step rest ih =>
    cases step with
    | add source line => exact ⟨trivial, ih ((verbose_after_add source line desk).trans h)⟩
    | run =>
      refine ⟨fun desk' => (run_outcome desk).ne_stackExhausted h, ih ?_⟩
      exact (verbose_after_run desk).trans h
    | pop =>
      refine ⟨trivial, ih ?_⟩
      rw [Step.after, stateAfter, pop_eq]
      cases desk.session.results <;> exact h

/-- The accounts of a session balance, whatever steps were taken, as long as the log stops no run: what
programs left was taken or is still there, in order, and nothing is evaluated twice. Each single step ends
in one of a few ways, and it is told of each of them what is left, where the log stops the step as well. -/
theorem accounts_balance (limits : Limits) (desk : Desk) (steps : List Step)
    (h : Logged limits desk steps) :
    Balanced (ledger limits desk steps) desk (after limits desk steps) ∧
      ∀ desk : Desk, (∀ source line, AddOutcome limits source line desk (add limits source line desk)) ∧
        RunOutcome limits desk (run limits desk) ∧
        (desk.session.results = [] → pop desk = .error (.host .noResult) desk) := by
  refine ⟨balanced_after desk steps h, fun desk => ⟨fun source line => add_outcome source line desk,
    run_outcome desk, fun hresults => ?_⟩⟩
  rw [pop_eq, hresults]

/-- Two programs that give values, one that fails behind them, and a text that is refused. -/
theorem accounts_balance_opening :
    let desk := start console true .standard (.fresh true .plain) true false .empty
    let steps : List Step :=
      [.add "define(x, 1)" 1, .add "f(" 2, .add "x" 3, .add "y" 4, .run, .pop, .run, .pop]
    Logged .standard desk steps ∧
      Balanced (ledger .standard desk steps) desk (after .standard desk steps) ∧
      ∀ desk : Desk,
        (∀ source line, AddOutcome .standard source line desk (add .standard source line desk)) ∧
        RunOutcome .standard desk (run .standard desk) ∧
        (desk.session.results = [] → pop desk = .error (.host .noResult) desk) := by
  intro desk steps
  have hlogged : Logged .standard desk steps := logged_of_short rfl steps
  exact ⟨hlogged, accounts_balance .standard desk steps hlogged⟩

/-- A full log may stop the adding of a text that has a tree. Then the reporter is at no text. -/
theorem full_log_forgets_text :
    let desk := start console true .standard (.fresh true .plain) true true .empty
    ∃ desk', add .standard (longBodyText 3000) 1 desk = .error (.host .stackExhausted) desk' ∧
      desk'.session.entry = some ⟨console, none, none⟩ := by
  intro desk
  have hparse := @parse_longBody 3000 Limits.standard.depth (by decide)
  have hcannot := @cannotLog_longBody desk rfl desk.session.path 1
  rw [add_eq]
  simp only [hparse, if_pos hcannot]
  exact ⟨_, rfl, entry_resting (desk.working (longBodyText 3000) 1)⟩

end CallScript.Session
