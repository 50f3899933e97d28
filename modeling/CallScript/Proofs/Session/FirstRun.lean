import CallScript.Proofs.CommandLine.Log
import CallScript.Proofs.Eval.Record
import CallScript.Proofs.Session.Step
import CallScript.Proofs.Shell.Trimmed

/-!
# The first program of a session

What a text comes to as the first program of a session: its value or what stops it, and what is
recorded meanwhile. It does not depend on who opened the session, nor on its path. The text without the
blanks at its end comes to the same.
-/

namespace CallScript.Session

open CommandLine

variable {limits : Limits}

def home : World :=
  (start console true .standard (.fresh true .plain) true false .empty).world

def opened (path : String) (interactive fatal : Bool) (style : Text.Style) : Desk :=
  ⟨⟨path, interactive, .standard, 0, 1, [], [], ⟨fatal, [⟨path, none, none⟩], style⟩, false⟩, home⟩

theorem start_eq_opened (path : String) (interactive : Bool) (style : Text.Style) :
    start path interactive .standard (.fresh true style) true false .empty =
      opened path interactive (!interactive) style := by
  cases interactive <;> rfl

/-- What a text comes to as the first program of a session, and what is recorded meanwhile. -/
def firstRun (limits : Limits) (text : String) : Except Raised Value × Array Event :=
  match Grammar.parse limits.depth text with
  | .error .tooDeep => (.error (.complaint .nestedTooDeeply), #[])
  | .error (.refused refusal offset) => (.error (.complaint (.ofRefusal text refusal offset)), #[])
  | .ok program =>
    match eval limits.rounds limits.depth .standard 1 program home with
    | .ok value w => (.ok value, w.events)
    | .error .tooDeep w => (.error (.complaint .recursionTooDeep), w.events)
    | .error halt w => (.error (.ofHalt halt), w.events)

def addRun (limits : Limits) (text : String) : Job Unit := do
  add limits text 1
  run limits

/-- In a world in which at most something was recorded since a session was opened, a program comes to
the same as right after that, and records the same behind what was there. -/
theorem eval_home (program : Expr) {w : World} (hframes : home.frames = w.frames)
    (hnext : home.nextId = w.nextId) :
    EndAlike (fun first later => (∀ event ∈ first.events, event.OfProgram) ∧
        later.events = w.events ++ first.events) Eq
      (eval limits.rounds limits.depth .standard 1 program home)
      (eval limits.rounds limits.depth .standard 1 program w) := by
  refine (eval_sameRecord limits.rounds limits.depth .standard 1 program hframes hnext).mono ?_
    fun _ _ => id
  rintro ⟨added, hprogram, hfirst, hlater⟩
  have hadded : home.events ++ added = added := Array.empty_append
  rw [hadded] at hfirst
  rw [hfirst]
  exact ⟨hprogram, hlater⟩

/-- All that was recorded was recorded by the program. -/
theorem ofProgram_firstRun (text : String) :
    ∀ event ∈ (firstRun limits text).2, event.OfProgram := by
  rw [firstRun]
  cases Grammar.parse limits.depth text with
  | error failure => cases failure <;> simp
  | ok program =>
    have hruns := @eval_home limits program home rfl rfl
    simp only
    generalize eval limits.rounds limits.depth .standard 1 program home = ending at hruns
    cases hruns with
    | ok states => exact states.1
    | @error cause _ _ states => cases cause <;> exact states.1

section

variable (path : String) (interactive fatal : Bool) (style : Text.Style)

theorem not_cannotLog_opened (notice : Notice) :
    ¬ (opened path interactive fatal style).CannotLog limits notice :=
  fun h => Bool.false_ne_true h.1

theorem resting_working_opened (text : String) (line : Int) :
    ((opened path interactive fatal style).working text line).resting =
      opened path interactive fatal style := by
  simp [Desk.working, Desk.resting, opened, Reporter.enter, Reporter.leave, Reporter.setTrace]

theorem addRun_of_parse {text : String} {program : Expr}
    (h : Grammar.parse limits.depth text = .ok program) :
    addRun limits text (opened path interactive fatal style) =
      runQueued limits ⟨text, program, 1⟩
        ((opened path interactive fatal style).noting (.queued path 1 program)) := by
  have hadd := @add_eq limits (opened path interactive fatal style) text 1
  simp only [h, if_neg (not_cannotLog_opened path interactive fatal style _),
    resting_working_opened] at hadd
  rw [addRun, Job.bind_ok hadd]
  exact run_queueing rfl ⟨text, program, 1⟩

/-- The text is run as it would be run elsewhere; the reporter works on it if it is stopped, and else on
nothing. -/
theorem addRun_opened (limits : Limits) (text : String) :
    ∃ world, ShownAlike (firstRun limits text).2 world.events ∧
      addRun limits text (opened path interactive fatal style) =
        match (firstRun limits text).1 with
        | .ok value => .ok () (((opened path interactive fatal style).inWorld world).keeping value)
        | .error raised =>
          .error raised (((opened path interactive fatal style).working text 1).inWorld world) := by
  rw [firstRun]
  cases hparse : Grammar.parse limits.depth text with
  | error failure =>
    have hadd := @add_eq limits (opened path interactive fatal style) text 1
    simp only [hparse] at hadd
    cases failure with
    | tooDeep => exact ⟨home, .refl _, Job.bind_error hadd⟩
    | refused refusal offset => exact ⟨home, .refl _, Job.bind_error hadd⟩
  | ok program =>
    -- The notice of the text in the queue is all that sets this world apart from `home`.
    let desk := (opened path interactive fatal style).noting (.queued path 1 program)
    have hruns := @eval_home limits program desk.world rfl rfl
    have hqueued : ShownAlike #[] desk.world.events := .notice rfl
    have hrun := @runQueued_eq limits desk ⟨text, program, 1⟩
    rw [addRun_of_parse path interactive fatal style hparse, hrun]
    simp only
    generalize eval limits.rounds limits.depth .standard 1 program home = first at hruns ⊢
    generalize hlater : eval limits.rounds limits.depth .standard 1 program desk.world = later at hruns
    have hlater : eval limits.rounds limits.depth desk.session.forms desk.session.globals program
      desk.world = later := hlater
    simp only [hlater]
    cases hruns with
    | @error cause w w' states =>
      have hevents := hqueued.append (.refl w.events)
      rw [Array.empty_append, ← states.2] at hevents
      cases cause <;> exact ⟨w', hevents, rfl⟩
    | @ok v _ w w' states values =>
      subst values
      have hevaluated : ShownAlike #[] #[.notice (.evaluated path 1 v)] := .notice rfl
      have hevents := (hqueued.append (.refl w.events)).append hevaluated
      rw [Array.empty_append, Array.append_empty, ← states.2] at hevents
      have hcan : ¬ desk.CannotLog limits (.evaluated desk.session.path 1 v) :=
        fun h => Bool.false_ne_true h.1
      refine ⟨w'.withEvent (.notice (.evaluated path 1 v)), ?_, ?_⟩
      · rwa [World.withEvent, ← Array.append_singleton]
      · have hresting := resting_working_opened path interactive fatal style text 1
        simp only [if_neg hcan]
        rw [← hresting]
        rfl

end

/-- Two texts come to the same, up to the blanks in their reports. -/
inductive SameEnding (text text' : String) : Except Raised Value → Except Raised Value → Prop where
  | value {v} : SameEnding text text' (.ok v) (.ok v)
  | complaint {d d'} (same : SameComplaint text text' d d') :
      SameEnding text text' (.error (.complaint d)) (.error (.complaint d'))
  | endless : SameEnding text text' (.error (.ofHalt .outOfRounds)) (.error (.ofHalt .outOfRounds))

/-- An entry comes to the same without the blanks at its end. -/
theorem firstRun_preprocess {text : String} (hblank : Text.isBlankText text.toList = false)
    (hdone : (Shell.preprocess text).2 = false) :
    (firstRun limits (Shell.preprocess text).1).2 = (firstRun limits text).2 ∧
      SameEnding text (Shell.preprocess text).1 (firstRun limits text).1
        (firstRun limits (Shell.preprocess text).1).1 := by
  have hparse := Grammar.parse_preprocess hblank hdone limits.depth
  rw [firstRun, firstRun, hparse]
  cases htext : Grammar.parse limits.depth text with
  | error failure =>
    cases failure with
    | tooDeep => exact ⟨rfl, .complaint (sameComplaint_of_not_located hblank rfl)⟩
    | refused refusal offset => exact ⟨rfl, .complaint (sameComplaint_of_refused hblank hdone htext)⟩
  | ok program =>
    dsimp only
    cases eval limits.rounds limits.depth .standard 1 program home with
    | ok v w => exact ⟨rfl, .value⟩
    | error cause w =>
      cases cause with
      | fault cause =>
        have hfault : Reporter.isLocated (.ofFault cause) = false := by
          simp [Reporter.isLocated, Diagnostic.ofFault]
        exact ⟨rfl, .complaint (sameComplaint_of_not_located hblank hfault)⟩
      | tooDeep => exact ⟨rfl, .complaint (sameComplaint_of_not_located hblank rfl)⟩
      | outOfRounds => exact ⟨rfl, .endless⟩

end CallScript.Session
