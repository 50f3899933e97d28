import CallScript.Proofs.Grammar.Joined
import CallScript.Proofs.Session.Accounting
import CallScript.Proofs.Session.Progress

/-!
# Programs split over runs

The same programs are added to a session and run in three ways: all of them are added and then run, each
of them is added and run before the next one, and a single text is added that takes all of them in
sequence. Each way is compared with what running the programs comes to. The log differs, and of a sequence
the last value alone is kept.
-/

namespace CallScript

variable {limits : Limits} {desk : Desk} {w : World}

namespace Desk

def queueingAll (items : List Queued) (desk : Desk) : Desk :=
  { desk with session := { desk.session with queue := desk.session.queue ++ items } }

theorem queueingAll_nil (desk : Desk) : desk.queueingAll [] = desk := by
  simp only [queueingAll, List.append_nil]

theorem queueingAll_cons (item : Queued) (items : List Queued) (desk : Desk) :
    (desk.queueing item).queueingAll items = desk.queueingAll (item :: items) := by
  simp only [queueingAll, queueing, List.append_assoc, List.singleton_append]

theorem queueingAll_resting (item : Queued) (items : List Queued) (w w' : World) (desk : Desk) :
    (((desk.queueing item).resting.inWorld w).queueingAll items).resting.inWorld w' =
      (desk.queueingAll (item :: items)).resting.inWorld w' := by
  have hdesk : (((desk.queueing item).resting.inWorld w).queueingAll items).resting.inWorld w' =
      ((desk.queueing item).queueingAll items).resting.resting.inWorld w' := rfl
  rw [hdesk, resting_resting, queueingAll_cons]

end Desk

namespace Session

/-- Adds texts, one after another. -/
def addAll (limits : Limits) : List Queued → Job Unit
  | [] => pure ()
  | item :: rest => do
    add limits item.source item.line
    addAll limits rest

/-- Adds all texts and runs them once. -/
def atOnce (limits : Limits) (items : List Queued) : Job Unit := do
  addAll limits items
  run limits

/-- Adds and runs each text before the next one. -/
def oneByOne (limits : Limits) : List Queued → Job Unit
  | [] => pure ()
  | item :: rest => do
    add limits item.source item.line
    run limits
    oneByOne limits rest

/-- Adds and runs a single text that takes all the others in sequence. -/
def inSequence (limits : Limits) (items : List Queued) (line : Int) : Job Unit := do
  add limits (Grammar.callText "do" (items.map Queued.source)) line
  run limits

/-- The texts have these trees. -/
def Parsed (limits : Limits) (items : List Queued) : Prop :=
  ∀ item ∈ items, Grammar.parse limits.depth item.source = .ok item.program

/-- What is left at a desk is what running programs at it comes to, but for the log, unless the log
stops the work. -/
inductive Settles (p : Progress) (desk : Desk) : EStateM.Result Raised Desk Unit → Prop where
  | done {p'} (alike : p.Alike p') (all : p.failure = none) : Settles p desk (.ok () (desk.doneWith p'))
  | failed {p' item halt} (alike : p.Alike p') (first : p.failure = some (item, halt)) :
      Settles p desk (.error (.ofProgram halt) (desk.stoppedAt item p'))
  | unlogged {desk'} : Settles p desk (.error (.host .stackExhausted) desk')

variable {p p' : Progress} {result : EStateM.Result Raised Desk Unit}

theorem RunLeaves.settles {items : List Queued} (h : RunLeaves limits items p' desk result)
    (halike : p.Alike p') : Settles p desk result := by
  cases h with
  | done all => exact .done halike (halike.failure.symm.trans all)
  | failed first => exact .failed halike (halike.failure.symm.trans first)
  | unlogged => exact .unlogged

theorem Settles.of_alike (h : Settles p' desk result) (halike : p.Alike p') : Settles p desk result := by
  cases h with
  | done alike all => exact .done (halike.trans alike) (halike.failure.symm.trans all)
  | failed alike first => exact .failed (halike.trans alike) (halike.failure.symm.trans first)
  | unlogged => exact .unlogged

theorem Settles.behind {item : Queued} {value : Value}
    (h : Settles p (desk.doneFirst value w) result) : Settles (p.behind item value) desk result := by
  cases h with
  | @done p' alike all => exact Desk.doneWith_behind item value w p' ▸ .done (alike.behind item value) all
  | @failed p' item' halt alike first =>
    exact Desk.stoppedAt_behind item item' value w p' ▸ .failed (alike.behind item value) first
  | unlogged => exact .unlogged

/-- Work leaves the same if only the reporter was elsewhere before. -/
theorem Settles.of_restsAs {desk' : Desk} (h : Settles p desk' result) (hdesk : desk.RestsAs w desk') :
    Settles p desk result := by
  cases h with
  | done alike all =>
    rw [hdesk.doneWith]
    exact .done alike all
  | failed alike first =>
    rw [hdesk.stoppedAt]
    exact .failed alike first
  | unlogged => exact .unlogged

theorem add_item (item : Queued) (h : Grammar.parse limits.depth item.source = .ok item.program)
    (desk : Desk) :
    (∃ w, SameButLog desk.world w ∧
      add limits item.source item.line desk = .ok () ((desk.queueing item).resting.inWorld w)) ∨
    ∃ desk', add limits item.source item.line desk = .error (.host .stackExhausted) desk' := by
  rw [add_eq]
  simp only [h]
  split
  · exact .inr ⟨_, rfl⟩
  · refine .inl ⟨_, .withEvent _ (.queued desk.session.path item.line item.program) (by simp), ?_⟩
    rw [← Desk.resting_working item.source item.line (desk.queueing item)]
    rfl

/-- A text that has a tree, added and run at a desk without a queue, leaves what its program leaves at
the desk, unless the log stops this. -/
theorem addRun_item (hqueue : desk.session.queue = []) (item : Queued)
    (h : Grammar.parse limits.depth item.source = .ok item.program) :
    (∃ w, SameButLog desk.world w ∧
      (add limits item.source item.line >>= fun _ => run limits) desk =
        runQueued limits item (desk.resting.inWorld w)) ∨
    ∃ desk', (add limits item.source item.line >>= fun _ => run limits) desk =
      .error (.host .stackExhausted) desk' := by
  rcases @add_item limits item h desk with ⟨w, hqueued, hadd⟩ | ⟨desk', hadd⟩
  · refine .inl ⟨w, hqueued, ?_⟩
    rw [Job.bind_ok hadd]
    exact @run_queueing limits (desk.resting.inWorld w) hqueue item
  · exact .inr ⟨desk', Job.bind_error hadd⟩

theorem addAll_queues {items : List Queued} (hitems : Parsed limits items) (desk : Desk) :
    (∃ desk' w, SameButLog desk.world w ∧ addAll limits items desk = .ok () desk' ∧
      (desk.queueingAll items).RestsAs w desk') ∨
    ∃ desk', addAll limits items desk = .error (.host .stackExhausted) desk' := by
  induction items generalizing desk with
  | nil => exact .inl ⟨desk, desk.world, .refl _, rfl, by rw [Desk.queueingAll_nil]; rfl⟩
  | cons item rest ih =>
    obtain ⟨hitem, hrest⟩ := List.forall_mem_cons.1 hitems
    rcases @add_item limits item hitem desk with ⟨w, hqueued, hadd⟩ | ⟨desk', hadd⟩
    · rw [addAll, Job.bind_ok hadd]
      rcases ih hrest _ with ⟨desk', w', hworld, hall, hdesk'⟩ | ⟨desk', hall⟩
      · refine .inl ⟨desk', w', hqueued.trans hworld, hall, ?_⟩
        exact hdesk'.trans (Desk.queueingAll_resting item rest w w' desk)
      · exact .inr ⟨desk', hall⟩
    · rw [addAll, Job.bind_error hadd]
      exact .inr ⟨desk', rfl⟩

theorem atOnce_settles {items : List Queued} (hqueue : desk.session.queue = []) (hne : items ≠ [])
    (hitems : Parsed limits items) :
    Settles (desk.progress limits items) desk (atOnce limits items desk) := by
  obtain ⟨item, rest, rfl⟩ := List.exists_cons_of_ne_nil hne
  rcases addAll_queues hitems desk with ⟨desk', w, hworld, hall, hdesk'⟩ | ⟨desk', hall⟩
  · have hqueued : desk'.session.queue = desk.session.queue ++ item :: rest :=
      congrArg (fun desk : Desk => desk.session.queue) hdesk'
    have hwithout : desk.withoutQueue.RestsAs w desk'.withoutQueue := congrArg Desk.withoutQueue hdesk'
    rw [hqueue, List.nil_append] at hqueued
    rw [Desk.withoutQueue_eq_self hqueue] at hwithout
    have hruns := @runAll_leaves limits item rest desk'.withoutQueue
    have halike : (desk.progress limits (item :: rest)).Alike
        (desk'.withoutQueue.progress limits (item :: rest)) :=
      hwithout.progress (item :: rest) ▸ progress_alike _ _ _ _ hworld
    rw [atOnce, Job.bind_ok hall, run_eq, hqueued]
    exact (hruns.settles halike).of_restsAs hwithout
  · rw [atOnce, Job.bind_error hall]
    exact .unlogged

/-- The first program leaves a desk at rest and without a queue, so the others are run at such a desk. -/
theorem oneByOne_cons_settles {item : Queued} {rest : List Queued}
    (hqueue : desk.session.queue = [])
    (hitem : Grammar.parse limits.depth item.source = .ok item.program)
    (hrest : ∀ desk : Desk, desk.session.queue = [] → desk.resting = desk →
      Settles (desk.progress limits rest) desk (oneByOne limits rest desk)) :
    Settles (desk.progress limits (item :: rest)) desk (oneByOne limits (item :: rest) desk) := by
  have hsteps : oneByOne limits (item :: rest) =
      (add limits item.source item.line >>= fun _ => run limits) >>= fun _ => oneByOne limits rest := by
    rw [oneByOne, bind_assoc]
  rcases @addRun_item limits desk hqueue item hitem with ⟨w, hqueued, hruns⟩ | ⟨desk', hstopped⟩
  · have hsteps : oneByOne limits (item :: rest) desk =
        (runQueued limits item >>= fun _ => oneByOne limits rest) (desk.resting.inWorld w) := by
      rw [hsteps]
      simp only [bind, EStateM.bind] at hruns ⊢
      rw [hruns]
    have halike := @progress_alike limits _ _ desk.session.path desk.session.forms
      desk.session.globals (item :: rest) hqueued
    refine Settles.of_restsAs (Settles.of_alike ?_ halike) (Desk.restsAs_resting w desk)
    rw [hsteps, progress]
    cases heval : eval limits.rounds limits.depth desk.session.forms desk.session.globals item.program
        w with
    | error halt w₁ =>
      rw [Job.bind_error (@runQueued_of_error limits (desk.resting.inWorld w) item halt w₁ heval),
        ← Desk.stoppedAt_first item (some (item, halt))]
      exact .failed (.refl _) rfl
    | ok value w₁ =>
      rcases @runQueued_of_ok limits (desk.resting.inWorld w) item value w₁ heval with
        hfirst | ⟨-, hfirst⟩
      · rw [Job.bind_ok hfirst]
        have hlater := hrest ((desk.resting.inWorld w).doneFirst value
          (w₁.withEvent (.notice (.evaluated desk.session.path item.line value)))) hqueue
        exact (hlater (Desk.resting_doneFirst value _)).behind
      · rw [Job.bind_error hfirst]
        exact .unlogged
  · rw [hsteps, Job.bind_error hstopped]
    exact .unlogged

theorem oneByOne_settles_of_resting {items : List Queued} (hitems : Parsed limits items)
    (hqueue : desk.session.queue = []) (hresting : desk.resting = desk) :
    Settles (desk.progress limits items) desk (oneByOne limits items desk) := by
  induction items generalizing desk with
  | nil =>
    have hdone : Settles (desk.progress limits []) desk (.ok () (desk.doneWith ⟨[], none, desk.world⟩)) :=
      .done (.refl _) rfl
    rw [Desk.doneWith_none, hresting] at hdone
    exact hdone
  | cons item rest ih =>
    obtain ⟨hitem, hrest⟩ := List.forall_mem_cons.1 hitems
    exact oneByOne_cons_settles hqueue hitem fun desk hqueue hresting => ih hrest hqueue hresting

theorem oneByOne_settles {items : List Queued} (hqueue : desk.session.queue = []) (hne : items ≠ [])
    (hitems : Parsed limits items) :
    Settles (desk.progress limits items) desk (oneByOne limits items desk) := by
  obtain ⟨item, rest, rfl⟩ := List.exists_cons_of_ne_nil hne
  obtain ⟨hitem, hrest⟩ := List.forall_mem_cons.1 hitems
  exact oneByOne_cons_settles hqueue hitem fun desk => oneByOne_settles_of_resting hrest

/-- The limit on nesting stops the step. -/
inductive AtLimit : Raised → Prop where
  | parsing : AtLimit (.complaint .nestedTooDeeply)
  | running : AtLimit (.complaint .recursionTooDeep)
  | logging : AtLimit (.host .stackExhausted)

/-- What is left at a desk by a text that takes programs in sequence, unless the limit on nesting stops
it. -/
inductive LeavesLast (p : Progress) (desk : Desk) : EStateM.Result Raised Desk Unit → Prop where
  | done {w₁} (all : p.failure = none) (world : SameButLog p.world w₁) :
      LeavesLast p desk (.ok () (desk.doneFirst (p.values.getLastD (.boolean false)) w₁))
  | failed {item halt desk'} (first : p.failure = some (item, halt))
      (world : SameButLog p.world desk'.world) : LeavesLast p desk (.error (.ofProgram halt) desk')
  | atLimit {raised desk'} (limit : AtLimit raised) : LeavesLast p desk (.error raised desk')

theorem runQueued_leavesLast {item : Queued}
    (h : p.LeavesLast (eval limits.rounds limits.depth desk.session.forms desk.session.globals
      item.program desk.world)) : LeavesLast p desk (runQueued limits item desk) := by
  cases heval : eval limits.rounds limits.depth desk.session.forms desk.session.globals item.program
      desk.world with
  | ok value w =>
    rw [heval] at h
    cases h with
    | value all world =>
      rcases runQueued_of_ok heval with hdone | ⟨-, hstopped⟩
      · rw [hdone]
        exact .done all (world.trans (.withEvent w _ (by simp)))
      · rw [hstopped]
        exact .atLimit .logging
  | error halt w =>
    rw [heval] at h
    rw [runQueued_of_error heval]
    cases h with
    | failure first world => exact .failed first world
    | tooDeep => exact .atLimit .running

theorem LeavesLast.of_restsAs {desk' : Desk} (h : LeavesLast p desk' result)
    (hdesk : desk.RestsAs w desk') : LeavesLast p desk result := by
  cases h with
  | done all world =>
    rw [hdesk.doneFirst]
    exact .done all world
  | failed first world => exact .failed first world
  | atLimit limit => exact .atLimit limit

/-- The text that takes programs in sequence, with its tree. -/
def sequence (items : List Queued) (line : Int) : Queued :=
  ⟨Grammar.callText "do" (items.map Queued.source), .apply (.word "do") (items.map Queued.program), line⟩

theorem program_sequence {items : List Queued} (hne : items ≠ []) (hitems : Parsed limits items)
    (line : Int) :
    Grammar.Program (sequence items line).source.toList (sequence items line).program := by
  obtain ⟨item, rest, rfl⟩ := List.exists_cons_of_ne_nil hne
  have hdo : Expr.IsName "do".toList := ⟨by decide, List.all_eq_true.1 (by decide), by decide⟩
  refine Grammar.program_callText hdo ?_
  rw [← List.map_cons, List.map_map, List.forall₂_map_left_iff, List.forall₂_map_right_iff,
    List.forall₂_same]
  exact fun item hitem => (Grammar.parse_eq_ok_iff.1 (hitems item hitem)).1

theorem inSequence_leaves {items : List Queued} (hqueue : desk.session.queue = [])
    (hforms : desk.session.forms.lookup "do" = some .sequence) (hne : items ≠ [])
    (hitems : Parsed limits items) (line : Int) :
    LeavesLast (desk.progress limits items) desk (inSequence limits items line desk) := by
  have hsteps : inSequence limits items line =
      add limits (sequence items line).source (sequence items line).line >>= fun _ => run limits := rfl
  have hparse := (program_sequence hne hitems line).parse limits.depth
  rw [hsteps]
  split at hparse
  · rcases @addRun_item limits desk hqueue _ hparse with ⟨w, hqueued, hruns⟩ | ⟨desk', hstopped⟩
    · have hends := @eval_sequence limits desk.world w desk.session.forms hforms desk.session.path
        desk.session.globals items hqueued
      have hleaves : LeavesLast (desk.progress limits items) (desk.resting.inWorld w)
          (runQueued limits (sequence items line) (desk.resting.inWorld w)) :=
        runQueued_leavesLast hends
      rw [hruns]
      exact hleaves.of_restsAs (Desk.restsAs_resting w desk)
    · rw [hstopped]
      exact .atLimit .logging
  · have hadd := @add_eq limits desk (sequence items line).source (sequence items line).line
    simp only [hparse] at hadd
    rw [Job.bind_error hadd]
    exact .atLimit .parsing

/-- The limit on nesting does not stop the step. -/
def AsideLimit (result : EStateM.Result Raised Desk Unit) : Prop :=
  ∀ raised desk', result = .error raised desk' → ¬ AtLimit raised

theorem Settles.of_all (h : Settles p desk result) (hlimit : AsideLimit result)
    (hall : p.failure = none) : ∃ p', p.Alike p' ∧ result = .ok () (desk.doneWith p') := by
  cases h with
  | done alike => exact ⟨_, alike, rfl⟩
  | failed alike first => exact absurd (hall.symm.trans first) (by simp)
  | unlogged => exact absurd .logging (hlimit _ _ rfl)

theorem Settles.of_first {item : Queued} {halt : Halt} (h : Settles p desk result)
    (hlimit : AsideLimit result) (hfirst : p.failure = some (item, halt)) :
    ∃ p', p.Alike p' ∧ result = .error (.ofProgram halt) (desk.stoppedAt item p') := by
  cases h with
  | done alike all => exact absurd (all.symm.trans hfirst) (by simp)
  | failed alike first =>
    cases first.symm.trans hfirst
    exact ⟨_, alike, rfl⟩
  | unlogged => exact absurd .logging (hlimit _ _ rfl)

theorem LeavesLast.of_all (h : LeavesLast p desk result) (hlimit : AsideLimit result)
    (hall : p.failure = none) : ∃ w, SameButLog p.world w ∧
      result = .ok () (desk.doneFirst (p.values.getLastD (.boolean false)) w) := by
  cases h with
  | done all world => exact ⟨_, world, rfl⟩
  | failed first => exact absurd (hall.symm.trans first) (by simp)
  | atLimit limit => exact absurd limit (hlimit _ _ rfl)

theorem LeavesLast.of_first {item : Queued} {halt : Halt} (h : LeavesLast p desk result)
    (hlimit : AsideLimit result) (hfirst : p.failure = some (item, halt)) :
    ∃ desk', SameButLog p.world desk'.world ∧ result = .error (.ofProgram halt) desk' := by
  cases h with
  | done all => exact absurd (all.symm.trans hfirst) (by simp)
  | failed first world =>
    cases first.symm.trans hfirst
    exact ⟨_, world, rfl⟩
  | atLimit limit => exact absurd limit (hlimit _ _ rfl)

theorem asideLimit_of_fault {cause : Fault}
    (h : ∃ desk', result = .error (.complaint (.ofFault cause)) desk') : AsideLimit result := by
  obtain ⟨desk', rfl⟩ := h
  intro raised desk'' heq hlimit
  have hkind : cause.kind ≠ .recursion := by cases cause <;> simp [Fault.kind]
  generalize hcause : Diagnostic.ofFault cause = diagnostic at heq
  cases heq
  cases hlimit with
  | parsing => exact hkind (congrArg Diagnostic.kind hcause)
  | running => exact hkind (congrArg Diagnostic.kind hcause)

/-- What the three ways leave. The results, and what the reporter is at, are those of the programs run
one after another; the sequence has the last of the results. The first two leave the same session, and
the worlds differ in the log only. -/
inductive SplitAlike (limits : Limits) (items : List Queued) (desk : Desk) :
    (atOnce oneByOne inSequence : EStateM.Result Raised Desk Unit) → Prop where
  | done {done last w first second third}
      (progress : desk.progress limits items = ⟨done, none, w⟩) (each : done.map Prod.fst = items)
      (queue : first.session.queue = [])
      (results : first.session.results = desk.session.results ++ done.map Prod.snd)
      (entry : first.session.entry = some ⟨desk.session.path, none, none⟩)
      (session : second.session = first.session)
      (value : (done.map Prod.snd).getLast? = some last)
      (result : third.session.results = desk.session.results ++ [last])
      (worlds : SameButLog first.world second.world ∧ SameButLog first.world third.world) :
      SplitAlike limits items desk (.ok () first) (.ok () second) (.ok () third)
  | failed {done item after halt w first second third}
      (progress : desk.progress limits items = ⟨done, some (item, halt), w⟩)
      (order : items = done.map Prod.fst ++ item :: after) (queue : first.session.queue = [])
      (results : first.session.results = desk.session.results ++ done.map Prod.snd)
      (entry : first.session.entry = some ⟨desk.session.path, some item.source, some item.line⟩)
      (session : second.session = first.session)
      (worlds : SameButLog first.world second.world ∧ SameButLog first.world third.world) :
      SplitAlike limits items desk (.error (.ofProgram halt) first) (.error (.ofProgram halt) second)
        (.error (.ofProgram halt) third)

/-- How texts are split over adding and running does not matter. Texts that have trees leave the same
lines, warnings and bindings, and stop the same way, whether they are added and run at once, one by one,
or as a single text that takes them in sequence. -/
theorem splitting_does_not_matter (limits : Limits) (desk : Desk) (items : List Queued) (line : Int)
    (hqueue : desk.session.queue = []) (hforms : desk.session.forms.lookup "do" = some .sequence)
    (hne : items ≠ []) (hitems : Parsed limits items)
    (hatOnce : AsideLimit (atOnce limits items desk))
    (honeByOne : AsideLimit (oneByOne limits items desk))
    (hinSequence : AsideLimit (inSequence limits items line desk)) :
    SplitAlike limits items desk (atOnce limits items desk) (oneByOne limits items desk)
      (inSequence limits items line desk) := by
  have hsettles := atOnce_settles hqueue hne hitems
  have hsettles' := oneByOne_settles hqueue hne hitems
  have hlast := inSequence_leaves hqueue hforms hne hitems line
  have hsplits := progress_splits limits desk.session.path desk.session.forms desk.session.globals items
    desk.world
  generalize hp : desk.progress limits items = p at hsettles hsettles' hlast
  have hsplits : Splits limits desk.session.path desk.session.forms desk.session.globals items
    desk.world p := hp ▸ hsplits
  obtain ⟨done, failure, w⟩ := p
  cases hsplits with
  | all none each =>
    obtain ⟨p, halike, hfirst⟩ := hsettles.of_all hatOnce none
    obtain ⟨p', halike', hsecond⟩ := hsettles'.of_all honeByOne none
    obtain ⟨w', hworld, hthird⟩ := hlast.of_all hinSequence none
    subst none
    have hvalues : done.map Prod.snd ≠ [] := by
      intro hnil
      rw [List.map_eq_nil_iff.1 hnil] at each
      exact hne each.symm
    obtain ⟨last, hvalue⟩ := Option.isSome_iff_exists.1 (List.getLast?_isSome.2 hvalues)
    have hresult : (done.map Prod.snd).getLastD (.boolean false) = last := by
      rw [List.getLastD_eq_getLast?, hvalue, Option.getD_some]
    rw [hfirst, hsecond, hthird]
    refine .done hp each hqueue ?_ (entry_resting _) ?_ hvalue ?_
      ⟨halike.world.symm.trans halike'.world, halike.world.symm.trans hworld⟩
    · exact congrArg (desk.session.results ++ ·) halike.values
    · rw [Desk.doneWith, Desk.doneWith, halike.values, halike'.values]
      rfl
    · exact congrArg (desk.session.results ++ [·]) hresult
  | failed first order =>
    obtain ⟨p, halike, hfirst⟩ := hsettles.of_first hatOnce first
    obtain ⟨p', halike', hsecond⟩ := hsettles'.of_first honeByOne first
    obtain ⟨desk', hworld, hthird⟩ := hlast.of_first hinSequence first
    subst first
    rw [hfirst, hsecond, hthird]
    refine .failed hp order hqueue ?_ (entry_working _ _ _) ?_
      ⟨halike.world.symm.trans halike'.world, halike.world.symm.trans hworld⟩
    · exact congrArg (desk.session.results ++ ·) halike.values
    · rw [Desk.stoppedAt, Desk.stoppedAt, halike.values, halike'.values]
      rfl

/-- A definition, and behind it a form that is none. -/
theorem splitting_does_not_matter_definitions :
    let limits : Limits := ⟨10, 10⟩
    let desk := start console true .standard (.fresh true .plain) true false .empty
    let items : List Queued :=
      [⟨"define(x, \"a\")", .apply (.word "define") [.word "x", .literal (.string "a")], 1⟩,
        ⟨"define(y)", .apply (.word "define") [.word "y"], 2⟩]
    desk.session.queue = [] ∧ desk.session.forms.lookup "do" = some .sequence ∧ items ≠ [] ∧
      Parsed limits items ∧ AsideLimit (atOnce limits items desk) ∧
      AsideLimit (oneByOne limits items desk) ∧ AsideLimit (inSequence limits items 3 desk) ∧
      SplitAlike limits items desk (atOnce limits items desk) (oneByOne limits items desk)
        (inSequence limits items 3 desk) := by
  intro limits desk items
  have hdefine : Expr.IsName "define".toList := ⟨by decide, List.all_eq_true.1 (by decide), by decide⟩
  have hx : Expr.IsName "x".toList := ⟨by decide, List.all_eq_true.1 (by decide), by decide⟩
  have hy : Expr.IsName "y".toList := ⟨by decide, List.all_eq_true.1 (by decide), by decide⟩
  have hx : Grammar.Program "x".toList (.word "x") := ⟨[], @Grammar.Expression.ofName [] "x" hx rfl, rfl⟩
  have hy : Grammar.Program "y".toList (.word "y") := ⟨[], @Grammar.Expression.ofName [] "y" hy rfl, rfl⟩
  have ha : Grammar.Program "\"a\"".toList (.literal (.string "a")) :=
    ⟨[], @Grammar.Expression.primary [] _ _ _ rfl (@Grammar.Primary.string ['a'] [] (by decide)), rfl⟩
  have hfirst := @Grammar.program_callText _ _ hdefine "x" ["\"a\""] (.cons hx (.cons ha .nil))
  have hsecond := @Grammar.program_callText _ _ hdefine "y" [] (.cons hy .nil)
  have hitems : Parsed limits items := by
    simp only [Parsed, items, List.forall_mem_cons]
    exact ⟨(hfirst.parse 10).trans (if_pos (by decide)), (hsecond.parse 10).trans (if_pos (by decide)),
      List.forall_mem_nil _⟩
  have hparse := hitems
  simp only [Parsed, items, List.forall_mem_cons] at hparse
  obtain ⟨hdefined, hrefused, -⟩ := hparse
  have hatOnce : AsideLimit (atOnce limits items desk) := by
    refine @asideLimit_of_fault _ .badDefinition ?_
    simp only [atOnce, addAll, items, add, hdefined, hrefused]
    exact ⟨_, rfl⟩
  have honeByOne : AsideLimit (oneByOne limits items desk) := by
    refine @asideLimit_of_fault _ .badDefinition ?_
    simp only [oneByOne, items, add, hdefined, hrefused]
    exact ⟨_, rfl⟩
  have hinSequence : AsideLimit (inSequence limits items 3 desk) := by
    have hsequence : Grammar.parse limits.depth (Grammar.callText "do" (items.map Queued.source)) =
        .ok (.apply (.word "do") (items.map Queued.program)) :=
      ((program_sequence (List.cons_ne_nil _ _) hitems 3).parse 10).trans (if_pos (by decide))
    refine @asideLimit_of_fault _ .badDefinition ?_
    simp only [inSequence, add, hsequence]
    exact ⟨_, rfl⟩
  exact ⟨rfl, rfl, List.cons_ne_nil _ _, hitems, hatOnce, honeByOne, hinSequence,
    splitting_does_not_matter limits desk items 3 rfl rfl (List.cons_ne_nil _ _) hitems hatOnce
      honeByOne hinSequence⟩

end Session

end CallScript
