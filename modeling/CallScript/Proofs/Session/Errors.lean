import CallScript.Proofs.Eval.Within
import CallScript.Proofs.Grammar.RoundTrip
import CallScript.Proofs.Session.Isolation
import CallScript.Proofs.Session.Step

/-!
# Errors of sessions

What adding a text and running the queue can end with, whatever was done in the session before: the
text is queued or refused, and the programs give their values or fail with an error of the language.
The errors are those of the program and of the limits, never one of the interpreter itself, and they
bear the text of the program exactly if it was refused. Every value is made of what is there. One
condition of the machine gets through, in a session whose log is written out in full: something that is
nested too deeply to be written there.
-/

namespace CallScript

open World

variable {limits : Limits}

namespace Desk

/-- The world is proper, and the session refers only to what is there. -/
structure Proper (desk : Desk) : Prop where
  world : desk.world.Proper
  globals : desk.session.globals < desk.world.frames.size
  queue : ∀ item ∈ desk.session.queue, item.program.Within desk.world.bounds
  results : ∀ v ∈ desk.session.results, desk.world.Has v

variable {desk : Desk}

theorem Proper.inWorld (h : desk.Proper) {w : World} (hw : desk.world.Grows w) :
    (desk.inWorld w).Proper :=
  ⟨hw.proper, hw.frame_lt h.globals, fun item hitem => (h.queue item hitem).mono hw.le,
    fun v hv => hw.has (h.results v hv)⟩

theorem Proper.working (h : desk.Proper) (source : String) (line : Int) :
    (desk.working source line).Proper :=
  ⟨h.world, h.globals, h.queue, h.results⟩

theorem Proper.resting (h : desk.Proper) : desk.resting.Proper :=
  ⟨h.world, h.globals, h.queue, h.results⟩

theorem Proper.noting (h : desk.Proper) (notice : Notice) : (desk.noting notice).Proper :=
  h.inWorld (h.world.withEvent _)

theorem Proper.queueing (h : desk.Proper) {item : Queued}
    (hitem : item.program.Within desk.world.bounds) : (desk.queueing item).Proper := by
  refine ⟨h.world, h.globals, fun other hother => ?_, h.results⟩
  rcases List.mem_append.1 hother with hmem | hmem
  · exact h.queue other hmem
  · exact (List.mem_singleton.1 hmem) ▸ hitem

theorem Proper.keeping (h : desk.Proper) {v : Value} (hv : desk.world.Has v) :
    (desk.keeping v).Proper := by
  refine ⟨h.world, h.globals, h.queue, fun other hother => ?_⟩
  rcases List.mem_append.1 hother with hmem | hmem
  · exact h.results other hmem
  · exact (List.mem_singleton.1 hmem) ▸ hv

theorem Proper.withoutQueue (h : desk.Proper) : desk.withoutQueue.Proper :=
  ⟨h.world, h.globals, by simp [Desk.withoutQueue], h.results⟩

/-- The other desk is proper, and its log is as full as that of this one. -/
structure LeadsTo (desk desk' : Desk) : Prop where
  proper : desk'.Proper
  verbose : desk'.session.verbose = desk.session.verbose

theorem LeadsTo.trans {desk' desk'' : Desk} (h : desk.LeadsTo desk') (h' : desk'.LeadsTo desk'') :
    desk.LeadsTo desk'' :=
  ⟨h'.proper, h'.verbose.trans h.verbose⟩

end Desk

/-- The literals of a program are numbers without a mark and strings, so it refers to nothing. -/
theorem Expr.WellFormed.within {e : Expr} (h : e.WellFormed) {b : Bounds} (hb : 0 < b.objects) :
    e.Within b := by
  induction h with
  | string _ => exact .literal .string
  | number _ => exact .literal (.number hb)
  | word _ => exact .word
  | apply _ _ hfirst hrest => exact .apply hfirst hrest

namespace Session

/-- How adding a text to a session ends. -/
inductive AddEnds (limits : Limits) (source : String) (line : Int) (desk : Desk) :
    EStateM.Result Raised Desk Unit → Prop where
  /-- The tree of the text stands at the end of the queue. -/
  | queued {program desk'} (parsed : Grammar.parse limits.depth source = .ok program)
      (queue : desk'.session.queue = desk.session.queue ++ [⟨source, program, line⟩]) :
      AddEnds limits source line desk (.ok () desk')
  /-- The text is refused, with an error that bears the whole of it. -/
  | refused {d desk'} (kind : d.kind = .syntaxError) (whole : d.source = source)
      (plain : d.internal = false) (queue : desk'.session.queue = desk.session.queue) :
      AddEnds limits source line desk (.error (.complaint d) desk')
  | tooDeep {d desk'} (kind : d.kind = .recursion) (plain : d.internal = false)
      (queue : desk'.session.queue = desk.session.queue) :
      AddEnds limits source line desk (.error (.complaint d) desk')
  /-- The text has a tree that is nested too deeply for the log. -/
  | unlogged {program desk'} (parsed : Grammar.parse limits.depth source = .ok program)
      (cannot : desk.CannotLog limits (.queued desk.session.path line program))
      (queue : desk'.session.queue = desk.session.queue) :
      AddEnds limits source line desk (.error (.host .stackExhausted) desk')

theorem add_ends (source : String) (line : Int) (desk : Desk) :
    AddEnds limits source line desk (add limits source line desk) := by
  rw [add_eq]
  cases hparse : Grammar.parse limits.depth source with
  | error failure =>
    cases failure with
    | tooDeep => exact .tooDeep rfl rfl rfl
    | refused refusal offset => exact .refused rfl rfl rfl rfl
  | ok program =>
    by_cases hcannot : desk.CannotLog limits (.queued desk.session.path line program)
    · simp only [if_pos hcannot]
      exact .unlogged hparse hcannot rfl
    · simp only [if_neg hcannot]
      exact .queued hparse rfl

theorem leadsTo_add {desk : Desk} (h : desk.Proper) (source : String) (line : Int) :
    desk.LeadsTo (stateAfter (add limits source line) desk) := by
  have hworking := h.working source line
  rw [stateAfter, add_eq]
  cases hparse : Grammar.parse limits.depth source with
  | error failure => cases failure <;> exact ⟨hworking, rfl⟩
  | ok program =>
    by_cases hcannot : desk.CannotLog limits (.queued desk.session.path line program)
    · simp only [if_pos hcannot]
      exact ⟨hworking.resting, rfl⟩
    · simp only [if_neg hcannot]
      have hkept : 0 < desk.world.bounds.objects := h.world.kept
      have hprogram := (Grammar.wellFormed_of_parse hparse).within hkept
      exact ⟨(hworking.resting.noting _).queueing hprogram, rfl⟩

/-- The kinds of errors that a program can fail with. -/
def programKinds : List ErrorKind :=
  [.syntaxError, .reference, .type, .runtime, .recursion]

/-- What stops the run of programs, in a session with a short or a full log. -/
inductive Stops (limits : Limits) (items : List Queued) (verbose : Bool) : Raised → Prop where
  | failed {d} (kind : d.kind ∈ programKinds) (plain : d.internal = false) (bare : d.source = "") :
      Stops limits items verbose (.complaint d)
  /-- A loop goes on for more rounds than any loop can take. -/
  | endless : Stops limits items verbose (.ofHalt .outOfRounds)
  /-- One of the programs has a value that is nested too deeply for the log. -/
  | unlogged {item forms home w value w'} (full : verbose = true) (mem : item ∈ items)
      (gives : eval limits.rounds limits.depth forms home item.program w = .ok value w')
      (deep : value.fits limits.depth = false) : Stops limits items verbose (.host .stackExhausted)

/-- How running programs at a desk ends. -/
inductive RunEnds (limits : Limits) (items : List Queued) (desk : Desk) :
    EStateM.Result Raised Desk Unit → Prop where
  /-- Every program left a value, made of what is there. -/
  | done {values desk'} (results : desk'.session.results = desk.session.results ++ values)
      (count : values.length = items.length) (there : ∀ v ∈ values, desk'.world.Has v) :
      RunEnds limits items desk (.ok () desk')
  | stopped {raised desk'} (why : Stops limits items desk.session.verbose raised) :
      RunEnds limits items desk (.error raised desk')

theorem Stops.mono {items items' : List Queued} {verbose : Bool} {raised : Raised}
    (hsub : ∀ item ∈ items, item ∈ items') : Stops limits items verbose raised →
    Stops limits items' verbose raised
  | .failed kind plain bare => .failed kind plain bare
  | .endless => .endless
  | .unlogged full mem gives deep => .unlogged full (hsub _ mem) gives deep

/-- A fault that is not the interpreter's own is of a kind that programs can fail with. -/
theorem stops_of_fault {cause : Fault} (h : cause.isInternal = false) (items : List Queued)
    (verbose : Bool) : Stops limits items verbose (.ofHalt (.fault cause)) := by
  refine .failed ?_ h rfl
  cases cause with
  | notExpression quoted => cases h
  | _ => simp [Diagnostic.ofFault, Fault.kind, programKinds]

/-- One program leaves its value at a desk that the next one can be run at, or is stopped. -/
theorem runQueued_ends {desk : Desk} (h : desk.Proper) (item : Queued)
    (hitem : item.program.Within desk.world.bounds) :
    (∃ value desk', runQueued limits item desk = .ok () desk' ∧ desk.LeadsTo desk' ∧
      desk.world.Grows desk'.world ∧ desk'.session.results = desk.session.results ++ [value]) ∨
    ∃ raised desk', runQueued limits item desk = .error raised desk' ∧ desk.LeadsTo desk' ∧
      Stops limits [item] desk.session.verbose raised := by
  have heval := eval_yieldsWithin limits.rounds limits.depth desk.session.forms
    desk.session.globals item.program desk.world h.world h.globals hitem
  have hworking := h.working item.source item.line
  rw [runQueued_eq]
  cases hrun : eval limits.rounds limits.depth desk.session.forms desk.session.globals item.program
      desk.world with
  | error halt w =>
    obtain ⟨hgrows, hplain⟩ := heval.error hrun
    have hdesk : desk.LeadsTo ((desk.working item.source item.line).inWorld w) :=
      ⟨hworking.inWorld hgrows, rfl⟩
    refine .inr ?_
    cases halt with
    | fault cause => exact ⟨_, _, rfl, hdesk, stops_of_fault hplain _ _⟩
    | tooDeep => exact ⟨_, _, rfl, hdesk, .failed (by decide) rfl rfl⟩
    | outOfRounds => exact ⟨_, _, rfl, hdesk, .endless⟩
  | ok value w =>
    obtain ⟨hgrows, hvalue⟩ := heval.ok hrun
    have hdesk := hworking.inWorld hgrows
    by_cases hcannot : desk.CannotLog limits (.evaluated desk.session.path item.line value)
    · simp only [if_pos hcannot]
      exact .inr ⟨_, _, rfl, ⟨hdesk, rfl⟩,
        .unlogged hcannot.1 (List.mem_singleton_self item) hrun hcannot.2⟩
    · simp only [if_neg hcannot]
      have hnoted := hdesk.noting (.evaluated desk.session.path item.line value)
      have hkept := (hnoted.keeping hvalue).resting
      exact .inl ⟨value, _, rfl, ⟨hkept, rfl⟩, hgrows.trans (hgrows.proper.withEvent _), rfl⟩

theorem runAll_ends {items : List Queued} {desk : Desk} (h : desk.Proper)
    (hitems : ∀ item ∈ items, item.program.Within desk.world.bounds) :
    RunEnds limits items desk (runAll limits items desk) ∧
      desk.LeadsTo (stateAfter (runAll limits items) desk) := by
  induction items generalizing desk with
  | nil => exact ⟨@RunEnds.done _ _ _ [] _ (by simp) rfl (by simp), h, rfl⟩
  | cons item rest ih =>
    obtain ⟨hitem, hrest⟩ := List.forall_mem_cons.1 hitems
    rw [runAll_cons]
    rcases @runQueued_ends limits _ h item hitem with
      ⟨value, desk₁, hrun, hdesk₁, hgrows, hresults⟩ | ⟨raised, desk₁, hrun, hdesk₁, hstops⟩
    · obtain ⟨hends, hdesk₂⟩ := ih hdesk₁.proper fun item hmem => (hrest item hmem).mono hgrows.le
      rw [Job.bind_ok hrun, stateAfter_bind_of_ok hrun]
      refine ⟨?_, hdesk₁.trans hdesk₂⟩
      cases hall : runAll limits rest desk₁ with
      | ok _ desk₂ =>
        rw [hall] at hends
        rw [stateAfter_of_ok hall] at hdesk₂
        cases hends with
        | @done values _ results count there =>
          rw [hresults, List.append_assoc, List.singleton_append] at results
          refine .done results (by simp [count]) fun v hv => hdesk₂.proper.results v ?_
          rw [results]
          exact List.mem_append_right _ hv
      | error raised desk₂ =>
        rw [hall] at hends
        cases hends with
        | stopped why =>
          rw [hdesk₁.verbose] at why
          exact .stopped (why.mono fun _ hmem => List.mem_cons_of_mem _ hmem)
    · rw [Job.bind_error hrun, stateAfter_bind_of_error hrun]
      exact ⟨.stopped (hstops.mono (by simp)), hdesk₁⟩

theorem run_ends {desk : Desk} (h : desk.Proper) :
    RunEnds limits desk.session.queue desk (run limits desk) ∧
      desk.LeadsTo (stateAfter (run limits) desk) := by
  obtain ⟨hends, hdesk⟩ := @runAll_ends limits _ _ h.withoutQueue h.queue
  refine ⟨?_, hdesk.proper, hdesk.verbose⟩
  rw [run_eq]
  generalize runAll limits desk.session.queue desk.withoutQueue = result at hends ⊢
  cases hends with
  | done results count there => exact .done results count there
  | stopped why => exact .stopped why

theorem leadsTo_pop {desk : Desk} (h : desk.Proper) : desk.LeadsTo (stateAfter pop desk) := by
  rw [stateAfter, pop_eq]
  cases hresults : desk.session.results with
  | nil => exact ⟨h, rfl⟩
  | cons value rest =>
    refine ⟨⟨h.world, h.globals, h.queue, fun v hv => h.results v ?_⟩, rfl⟩
    exact hresults ▸ List.mem_cons_of_mem _ hv

theorem leadsTo_after {desk : Desk} (h : desk.Proper) (steps : List Step) :
    desk.LeadsTo (after limits desk steps) := by
  induction steps generalizing desk with
  | nil => exact ⟨h, rfl⟩
  | cons step rest ih =>
    have hstep : desk.LeadsTo (step.after limits desk) := by
      cases step with
      | add source line => exact leadsTo_add h source line
      | run => exact (run_ends h).2
      | pop => exact leadsTo_pop h
    exact hstep.trans (ih hstep.proper)

section Start

variable (path : String) (interactive : Bool) (forms : Registry) (reporter : Reporter)
variable (writes verbose : Bool)

theorem proper_start {w : World} (hw : w.Proper) :
    (start path interactive forms reporter writes verbose w).Proper := by
  have hroot := hw.addRoot writes
  have hsize : w.frames.size < (w.addRoot writes).2.frames.size := by
    simp [World.addRoot, World.addFrame]
  have hglobals := @Proper.withFrame _ hroot.proper [] _ (by simp) hsize
  refine ⟨hglobals.proper, ?_, by simp [start], by simp [start]⟩
  rw [start_globals]
  simp [start, World.addRoot, World.addFrame]

end Start

/-- Whatever was done in a session before, its errors are those of the language. A text that is added
is queued, or refused with an error that bears all of it, or nested too deeply. The queue runs to a
value for every program, or is stopped by an error of the language, which bears no text, or by a loop
that does not end. No value refers to anything but what is there. A condition of the machine gets
through only in a session with a full log, where something is nested too deeply to be written. -/
theorem errors_are_of_the_language (limits : Limits) (path : String) (interactive : Bool)
    (forms : Registry) (reporter : Reporter) (writes verbose : Bool) {w : World} (hw : w.Proper)
    (steps : List Step) :
    let desk := after limits (start path interactive forms reporter writes verbose w) steps
    desk.session.verbose = verbose ∧
      (∀ source line, AddEnds limits source line desk (add limits source line desk)) ∧
      RunEnds limits desk.session.queue desk (run limits desk) ∧
      ∀ v ∈ desk.session.results, desk.world.Has v := by
  intro desk
  have hstart := proper_start path interactive forms reporter writes verbose hw
  have hdesk := @leadsTo_after limits _ hstart steps
  refine ⟨hdesk.verbose, fun source line => add_ends source line desk, ?_, hdesk.proper.results⟩
  exact (run_ends hdesk.proper).1

/-- Two programs, one of which fails, added to and run in a session that nothing was done in. -/
theorem errors_are_of_the_language_opening :
    World.Proper .empty ∧
      (let desk := after .standard
        (start console true .standard (.fresh true .plain) true false .empty)
        [.add "print(1)" 1, .add "f(" 2, .run]
      desk.session.verbose = false ∧
        (∀ source line, AddEnds .standard source line desk (add .standard source line desk)) ∧
        RunEnds .standard desk.session.queue desk (run .standard desk) ∧
        ∀ v ∈ desk.session.results, desk.world.Has v) :=
  ⟨proper_empty, errors_are_of_the_language .standard console true .standard (.fresh true .plain)
    true false proper_empty [.add "print(1)" 1, .add "f(" 2, .run]⟩

def calledOver : Nat → Expr → Expr
  | 0, e => e
  | n + 1, e => calledOver n (.apply e [])

def callMarks : Nat → List Char
  | 0 => []
  | n + 1 => '(' :: ')' :: callMarks n

theorem expression_calledOver (n : Nat) {cs rest : List Char} {e : Expr}
    (h : Grammar.Expression cs e (callMarks n ++ rest)) :
    Grammar.Expression cs (calledOver n e) rest := by
  induction n generalizing e with
  | zero => exact h
  | succ n ih => exact ih (@Grammar.Expression.call _ [] _ _ _ _ h rfl (@Grammar.Arguments.empty [] _ rfl))

theorem callDepth_calledOver (n : Nat) (e : Expr) : (calledOver n e).callDepth = e.callDepth := by
  induction n generalizing e with
  | zero => rfl
  | succ n ih => rw [calledOver, ih, Expr.callDepth, Expr.argsDepth, Nat.max_zero]

theorem fits_calledOver {n levels room : Nat} {e : Expr}
    (he : ∀ room, e.fits room = true → levels < room)
    (h : (calledOver n e).fits room = true) : n + levels < room := by
  induction n generalizing e levels with
  | zero => simpa using he room h
  | succ n ih =>
    have hcall : ∀ room, (Expr.apply e []).fits room = true → levels + 1 < room := by
      intro room hfits
      cases room with
      | zero => cases hfits
      | succ room =>
        rw [Expr.fits, List.all_nil, Bool.and_true] at hfits
        exact Nat.succ_lt_succ (he room hfits)
    have := ih hcall h
    omega

/-- A function whose body calls `f`, what this gives, and so on. -/
def longBody (n : Nat) : Expr :=
  .apply (.word "fun") [calledOver n (.word "f")]

def longBodyText (n : Nat) : String :=
  String.ofList ("fun".toList ++ '(' :: ("f".toList ++ (callMarks n ++ [')'])))

theorem parse_longBody (n : Nat) {depth : Nat} (h : 1 < depth) :
    Grammar.parse depth (longBodyText n) = .ok (longBody n) := by
  have hfun : Expr.IsName "fun".toList :=
    ⟨by decide, List.all_eq_true.1 (by decide), by decide⟩
  have hf : Expr.IsName "f".toList :=
    ⟨by decide, List.all_eq_true.1 (by decide), by decide⟩
  rw [Grammar.parse_eq_ok_iff, longBodyText, String.toList_ofList]
  refine ⟨⟨[], ?_, rfl⟩, ?_⟩
  · have hstop : (callMarks n ++ [')']).head?.any Grammar.isWordChar = false := by
      cases n <;> rfl
    have more : Grammar.MoreArguments [')'] [] [] := @Grammar.MoreArguments.close [] [] rfl
    have body := expression_calledOver n (Grammar.Expression.ofName hf hstop)
    exact @Grammar.Expression.call _ [] _ _ _ _ (.ofName hfun rfl) rfl (.nonempty body more)
  · simp only [longBody, Expr.callDepth, Expr.argsDepth, callDepth_calledOver]
    exact h

theorem cannotLog_longBody {desk : Desk} (hfull : desk.session.verbose = true) (path : String)
    (line : Int) : desk.CannotLog .standard (.queued path line (longBody 3000)) := by
  refine ⟨hfull, Bool.eq_false_iff.2 fun hfits => ?_⟩
  have hword : ∀ room, (Expr.word "f").fits room = true → 0 < room := by
    rintro (_ | room) h
    · cases h
    · exact Nat.succ_pos room
  have hfits : ((Expr.word "fun").fits 399 && [calledOver 3000 (.word "f")].all (Expr.fits 399)) =
      true := hfits
  simp only [List.all_cons, List.all_nil, Bool.and_true, Bool.and_eq_true] at hfits
  have := fits_calledOver hword hfits.2
  omega

/-- A program that makes a function and calls nothing cannot be added to a session with a full log. -/
theorem full_log_stops_add :
    let desk := start console true .standard (.fresh true .plain) true true .empty
    ∃ desk', add .standard (longBodyText 3000) 1 desk = .error (.host .stackExhausted) desk' := by
  intro desk
  have hparse := @parse_longBody 3000 Limits.standard.depth (by decide)
  have hcannot := @cannotLog_longBody desk rfl desk.session.path 1
  rw [add_eq]
  simp only [hparse, if_pos hcannot]
  exact ⟨_, rfl⟩

end Session

end CallScript
