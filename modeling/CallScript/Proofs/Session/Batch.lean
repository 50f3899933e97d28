import CallScript.Proofs.Session.Step

/-!
# Running the queue

What running programs one after another comes to: the values of those before the first that fails, that
one with what ends its evaluation, and the world that is left. A run of the queue leaves just this at its
desk, unless the log stops it.
-/

namespace CallScript

variable {limits : Limits} {desk : Desk}

namespace Desk

def keepingAll (values : List Value) (desk : Desk) : Desk :=
  { desk with session := { desk.session with results := desk.session.results ++ values } }

theorem keepingAll_nil (desk : Desk) : desk.keepingAll [] = desk := by
  simp only [keepingAll, List.append_nil]

theorem keepingAll_cons (value : Value) (values : List Value) (desk : Desk) :
    (desk.keeping value).keepingAll values = desk.keepingAll (value :: values) := by
  simp only [keepingAll, keeping, List.append_assoc, List.singleton_append]

end Desk

/-- What stops the step in which the evaluation of a program ends so. -/
def Raised.ofProgram : Halt → Raised
  | .tooDeep => .complaint .recursionTooDeep
  | halt => .ofHalt halt

/-- What running programs one after another comes to. -/
structure Progress where
  /-- The programs that gave a value, and their values. -/
  done : List (Queued × Value)
  /-- The program that failed, if one did, and what ended its evaluation. -/
  failure : Option (Queued × Halt)
  world : World

def Progress.values (p : Progress) : List Value :=
  p.done.map Prod.snd

/-- The programs that were evaluated, with their values if they gave one. -/
def Progress.attempts (p : Progress) : List (Queued × Option Value) :=
  p.done.map (fun entry => (entry.1, some entry.2)) ++
    (p.failure.map fun entry => (entry.1, none)).toList

theorem Progress.filterMap_attempts (p : Progress) : p.attempts.filterMap Prod.snd = p.values := by
  have hdone : (p.done.map fun entry => (entry.1, some entry.2)).filterMap Prod.snd = p.values := by
    rw [List.filterMap_map, values, ← List.filterMap_eq_map]
    rfl
  cases hfailure : p.failure <;> simp [attempts, hdone, hfailure, -List.filterMap_map]

/-- A program that gives a value, in front of others. -/
def Progress.behind (item : Queued) (value : Value) (later : Progress) : Progress :=
  ⟨(item, value) :: later.done, later.failure, later.world⟩

/-- Evaluates programs in order in one frame, up to the first that fails. Each value is put into the
log. -/
def progress (limits : Limits) (path : String) (forms : Registry) (globals : FrameId) :
    List Queued → World → Progress
  | [], w => ⟨[], none, w⟩
  | item :: rest, w =>
    match eval limits.rounds limits.depth forms globals item.program w with
    | .error halt w => ⟨[], some (item, halt), w⟩
    | .ok value w =>
      (progress limits path forms globals rest
        (w.withEvent (.notice (.evaluated path item.line value)))).behind item value

section

variable (limits : Limits) (path : String) (forms : Registry) (globals : FrameId)

/-- All programs give a value, or one of them fails behind others that all give one. -/
inductive Splits (items : List Queued) (w : World) (p : Progress) : Prop where
  | all (none : p.failure = none) (each : p.done.map Prod.fst = items) : Splits items w p
  | failed {item halt after w₁} (first : p.failure = some (item, halt))
      (order : items = p.done.map Prod.fst ++ item :: after)
      (earlier : progress limits path forms globals (p.done.map Prod.fst) w = ⟨p.done, none, w₁⟩)
      (fails : eval limits.rounds limits.depth forms globals item.program w₁ = .error halt p.world) :
      Splits items w p

variable {limits path forms globals} in
theorem Splits.attempts_inOrder {items : List Queued} {w : World} {p : Progress}
    (h : Splits limits path forms globals items w p) : p.attempts.map Prod.fst <+: items := by
  have hdone : p.done.map (Prod.fst ∘ fun entry => (entry.1, some entry.2)) = p.done.map Prod.fst := rfl
  rw [Progress.attempts, List.map_append, List.map_map, hdone]
  cases h with
  | all none each => simp [none, each]
  | failed first order => simp [first, order]

theorem progress_splits (items : List Queued) (w : World) :
    Splits limits path forms globals items w (progress limits path forms globals items w) := by
  induction items generalizing w with
  | nil => exact .all rfl rfl
  | cons item rest ih =>
    rw [progress]
    cases heval : eval limits.rounds limits.depth forms globals item.program w with
    | error halt w' => exact .failed rfl rfl rfl heval
    | ok value w' =>
      cases ih (w'.withEvent (.notice (.evaluated path item.line value))) with
      | all none each => exact .all none (congrArg (item :: ·) each)
      | failed first order earlier fails =>
        refine .failed first (congrArg (item :: ·) order) ?_ fails
        simp only [Progress.behind, List.map_cons, progress, heval, earlier]

end

/-- What running programs at a desk comes to. -/
def Desk.progress (limits : Limits) (items : List Queued) (desk : Desk) : Progress :=
  CallScript.progress limits desk.session.path desk.session.forms desk.session.globals items desk.world

/-- The desk once programs were run at it, if not all of them gave a value. -/
def Desk.stoppedAt (item : Queued) (p : Progress) (desk : Desk) : Desk :=
  ((desk.keepingAll p.values).working item.source item.line).inWorld p.world

/-- The desk once programs were run at it, if all of them gave a value. -/
def Desk.doneWith (p : Progress) (desk : Desk) : Desk :=
  (desk.keepingAll p.values).resting.inWorld p.world

theorem Desk.stoppedAt_first (item : Queued) (failure : Option (Queued × Halt)) (w : World)
    (desk : Desk) :
    desk.stoppedAt item ⟨[], failure, w⟩ = (desk.working item.source item.line).inWorld w := by
  rw [stoppedAt, Progress.values, List.map_nil, keepingAll_nil]

theorem Desk.doneWith_none (w : World) (desk : Desk) :
    desk.doneWith ⟨[], none, w⟩ = desk.resting.inWorld w := by
  rw [doneWith, Progress.values, List.map_nil, keepingAll_nil]

/-- The desk once a program gave a value. -/
def Desk.doneFirst (value : Value) (w : World) (desk : Desk) : Desk :=
  (desk.keeping value).resting.inWorld w

/-- The desk once a program gave a value and this was put into the log. -/
def Desk.afterFirst (item : Queued) (value : Value) (w : World) (desk : Desk) : Desk :=
  desk.doneFirst value (w.withEvent (.notice (.evaluated desk.session.path item.line value)))

theorem Desk.resting_doneFirst (value : Value) (w : World) :
    (desk.doneFirst value w).resting = desk.doneFirst value w :=
  congrArg (Desk.inWorld w) (Desk.resting_resting (desk.keeping value))

theorem Desk.doneWith_behind (item : Queued) (value : Value) (w : World) (later : Progress) :
    (desk.doneFirst value w).doneWith later = desk.doneWith (later.behind item value) := by
  have hdesk : (desk.doneFirst value w).doneWith later =
      ((desk.keeping value).keepingAll later.values).resting.resting.inWorld later.world := rfl
  rw [hdesk, Desk.resting_resting, Desk.keepingAll_cons]
  rfl

theorem Desk.stoppedAt_behind (item item' : Queued) (value : Value) (w : World) (later : Progress) :
    (desk.doneFirst value w).stoppedAt item' later =
      desk.stoppedAt item' (later.behind item value) := by
  have hdesk : (desk.doneFirst value w).stoppedAt item' later =
      (((desk.keeping value).keepingAll later.values).resting.working item'.source item'.line).inWorld
        later.world := rfl
  rw [hdesk, Desk.working_resting, Desk.keepingAll_cons]
  rfl

namespace Session

/-- The log, written out in full, stops a run at a program: those in front of it gave their values, and
it gives one that is nested too deeply to be written there. -/
structure Overflows (limits : Limits) (items : List Queued) (desk : Desk) (done : List (Queued × Value))
    (item : Queued) (w : World) : Prop where
  full : desk.session.verbose = true
  order : ∃ after, items = done.map Prod.fst ++ item :: after
  gives : ∃ w₁ value, desk.progress limits (done.map Prod.fst) = ⟨done, none, w₁⟩ ∧
    eval limits.rounds limits.depth desk.session.forms desk.session.globals item.program w₁ =
      .ok value w ∧ value.fits limits.depth = false

/-- What is left at a desk is what running programs at it comes to. If the log stops the run, this is
what those in front of the stop come to, and the value at which it stops is lost. -/
inductive RunLeaves (limits : Limits) (items : List Queued) (p : Progress) (desk : Desk) :
    EStateM.Result Raised Desk Unit → Prop where
  | done (all : p.failure = none) : RunLeaves limits items p desk (.ok () (desk.doneWith p))
  | failed {item halt} (first : p.failure = some (item, halt)) :
      RunLeaves limits items p desk (.error (.ofProgram halt) (desk.stoppedAt item p))
  | unlogged {done item w} (why : Overflows limits items desk done item w) :
      RunLeaves limits items p desk
        (.error (.host .stackExhausted) (desk.stoppedAt item ⟨done, none, w⟩))

theorem Overflows.behind {item item' : Queued} {items : List Queued} {value : Value} {w w' : World}
    {done : List (Queued × Value)}
    (heval : eval limits.rounds limits.depth desk.session.forms desk.session.globals item.program
      desk.world = .ok value w)
    (h : Overflows limits items (desk.afterFirst item value w) done item' w') :
    Overflows limits (item :: items) desk ((item, value) :: done) item' w' := by
  obtain ⟨hfull, ⟨after, horder⟩, w₁, value', hearlier, hgives⟩ := h
  refine ⟨hfull, ⟨after, congrArg (item :: ·) horder⟩, w₁, value', ?_, hgives⟩
  rw [List.map_cons, Desk.progress, progress, heval]
  exact congrArg (Progress.behind item value) hearlier

theorem RunLeaves.behind {item : Queued} {items : List Queued} {value : Value} {w : World}
    {later : Progress} {result : EStateM.Result Raised Desk Unit}
    (heval : eval limits.rounds limits.depth desk.session.forms desk.session.globals item.program
      desk.world = .ok value w)
    (h : RunLeaves limits items later (desk.afterFirst item value w) result) :
    RunLeaves limits (item :: items) (later.behind item value) desk result := by
  cases h with
  | done all => exact Desk.doneWith_behind item value _ later ▸ .done all
  | @failed item' halt first => exact Desk.stoppedAt_behind item item' value _ later ▸ .failed first
  | @unlogged done item' w' why =>
    exact Desk.stoppedAt_behind item item' value _ ⟨done, none, w'⟩ ▸ .unlogged (why.behind heval)

theorem runQueued_of_error {item : Queued} {halt : Halt} {w : World}
    (h : eval limits.rounds limits.depth desk.session.forms desk.session.globals item.program
      desk.world = .error halt w) :
    runQueued limits item desk =
      .error (.ofProgram halt) ((desk.working item.source item.line).inWorld w) := by
  rw [runQueued_eq]
  simp only [h]
  cases halt <;> rfl

theorem runQueued_of_ok {item : Queued} {value : Value} {w : World}
    (h : eval limits.rounds limits.depth desk.session.forms desk.session.globals item.program
      desk.world = .ok value w) :
    runQueued limits item desk = .ok () (desk.afterFirst item value w) ∨
      desk.CannotLog limits (.evaluated desk.session.path item.line value) ∧
        runQueued limits item desk =
          .error (.host .stackExhausted) ((desk.working item.source item.line).inWorld w) := by
  rw [runQueued_eq]
  simp only [h]
  split
  · rename_i hcannot
    exact .inr ⟨hcannot, rfl⟩
  · refine .inl ?_
    rw [Desk.afterFirst, Desk.doneFirst,
      ← Desk.resting_working item.source item.line (desk.keeping value)]
    rfl

/-- The first program leaves a desk at rest, so the others are run at such a desk. -/
theorem runAll_cons_leaves (item : Queued) {rest : List Queued}
    (hrest : ∀ desk : Desk, desk.resting = desk →
      RunLeaves limits rest (desk.progress limits rest) desk (runAll limits rest desk)) (desk : Desk) :
    RunLeaves limits (item :: rest) (desk.progress limits (item :: rest)) desk
      (runAll limits (item :: rest) desk) := by
  rw [Desk.progress, progress, runAll_cons]
  cases heval : eval limits.rounds limits.depth desk.session.forms desk.session.globals item.program
      desk.world with
  | error halt w =>
    rw [Job.bind_error (runQueued_of_error heval), ← Desk.stoppedAt_first item (some (item, halt))]
    exact .failed rfl
  | ok value w =>
    rcases runQueued_of_ok heval with hfirst | ⟨⟨hfull, hdeep⟩, hfirst⟩
    · rw [Job.bind_ok hfirst]
      exact (hrest _ (Desk.resting_doneFirst value _)).behind heval
    · rw [Job.bind_error hfirst, ← Desk.stoppedAt_first item none]
      exact .unlogged ⟨hfull, ⟨rest, rfl⟩, desk.world, value, rfl, heval, hdeep⟩

theorem runAll_leaves_of_resting (items : List Queued) (desk : Desk) (h : desk.resting = desk) :
    RunLeaves limits items (desk.progress limits items) desk (runAll limits items desk) := by
  induction items generalizing desk with
  | nil =>
    have hdesk := @RunLeaves.done limits [] (desk.progress limits []) desk rfl
    rw [Desk.progress, progress, Desk.doneWith_none, h] at hdesk
    exact hdesk
  | cons item rest ih => exact runAll_cons_leaves item ih desk

theorem runAll_leaves (item : Queued) (rest : List Queued) (desk : Desk) :
    RunLeaves limits (item :: rest) (desk.progress limits (item :: rest)) desk
      (runAll limits (item :: rest) desk) :=
  runAll_cons_leaves item (runAll_leaves_of_resting rest) desk

end Session

end CallScript
