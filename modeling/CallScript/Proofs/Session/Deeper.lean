import CallScript.Proofs.CommandLine.Log
import CallScript.Proofs.Eval.Deeper
import CallScript.Proofs.Grammar.Deeper
import CallScript.Proofs.Session.Step
import CallScript.Shell.Basic

/-!
# Sessions with more depth

The limit on depth only cuts the work of a session short. Adding a text, running what is queued and
showing the values comes to the same within every greater limit, unless it ends for the lack of depth;
and then the programs have written by that time what they begin with where there is more depth. No part
of the work goes on after the limit was reached, or does anything else because of it.
-/

namespace CallScript

variable {depth depth' rounds : Nat} {desk : Desk}

/-- A step was stopped for the lack of depth, by an error of the language or by the machine. -/
def Raised.LacksDepth : Raised → Prop
  | .complaint d => d.kind = .recursion
  | .host fault => fault = .stackExhausted
  | .exit _ => False

/-- The record at the one desk is the beginning of that at the other. -/
def DeskRecords (desk desk' : Desk) : Prop :=
  Records desk.world desk'.world

theorem lasting_deskRecords : Lasting DeskRecords :=
  ⟨fun desk => lasting_records.refl desk.world, fun h h' => lasting_records.trans h h'⟩

/-- The first work lacks depth, with the beginning of what the second one records, or both come to the
same. -/
abbrev JobUpToDepth {α : Type} (x y : Job α) : Prop :=
  CutShort Raised.LacksDepth DeskRecords x y

/-- What can be put into the log can be put there within a greater limit. -/
theorem Desk.not_cannotLog_of_le (hle : depth ≤ depth') {notice : Notice}
    (h : ¬ desk.CannotLog ⟨depth, rounds⟩ notice) : ¬ desk.CannotLog ⟨depth', rounds⟩ notice := by
  rintro ⟨hverbose, hdeep⟩
  refine h ⟨hverbose, Bool.eq_false_iff.2 fun hfits => Bool.eq_false_iff.1 hdeep ?_⟩
  cases notice with
  | queued path line program => exact Expr.fits_mono hle hfits
  | evaluated path line value => exact Value.fits_mono hle hfits
  | _ => rfl

namespace Session

variable {limits : Limits}

theorem add_records (source : String) (line : Int) :
    Maintains DeskRecords (add limits source line) := by
  intro desk
  have hrefl := lasting_records.refl desk.world
  rw [stateAfter, add_eq]
  cases Grammar.parse limits.depth source with
  | error failure => cases failure <;> exact hrefl
  | ok program =>
    by_cases hcannot : desk.CannotLog limits (.queued desk.session.path line program)
    · simp only [if_pos hcannot]
      exact hrefl
    · simp only [if_neg hcannot]
      exact cumulative_records.event desk.world _

theorem add_upToDepth (hle : depth ≤ depth') (source : String) (line : Int) :
    JobUpToDepth (add ⟨depth, rounds⟩ source line) (add ⟨depth', rounds⟩ source line) := by
  refine ⟨add_records source line, fun desk => ?_⟩
  have hadd := @add_eq ⟨depth, rounds⟩ desk source line
  have hadd' := @add_eq ⟨depth', rounds⟩ desk source line
  have hrecords := @add_records ⟨depth', rounds⟩ source line desk
  dsimp only at hadd hadd'
  rcases Grammar.parse_upToDepth hle source with hdeep | hsame
  · rw [hdeep] at hadd
    exact .inl ⟨_, _, hadd, rfl, hrecords⟩
  · rw [hsame] at hadd'
    cases hparse : Grammar.parse depth source with
    | error failure =>
      rw [hparse] at hadd hadd'
      cases failure <;> exact .inr (hadd'.trans hadd.symm)
    | ok program =>
      simp only [hparse] at hadd hadd'
      by_cases hcannot : desk.CannotLog ⟨depth, rounds⟩ (.queued desk.session.path line program)
      · rw [if_pos hcannot] at hadd
        exact .inl ⟨_, _, hadd, rfl, hrecords⟩
      · rw [if_neg hcannot] at hadd
        rw [if_neg (Desk.not_cannotLog_of_le hle hcannot)] at hadd'
        exact .inr (hadd'.trans hadd.symm)

/-- A program records what its evaluation does, and perhaps more. -/
theorem runQueued_records_eval (item : Queued) (desk : Desk) :
    Records (stateAfter (eval limits.rounds limits.depth desk.session.forms desk.session.globals
      item.program) desk.world) (stateAfter (runQueued limits item) desk).world := by
  have hrun := @runQueued_eq limits desk item
  rw [stateAfter, stateAfter, hrun]
  cases eval limits.rounds limits.depth desk.session.forms desk.session.globals item.program
      desk.world with
  | error halt w => cases halt <;> exact lasting_records.refl w
  | ok value w =>
    by_cases hcannot : desk.CannotLog limits (.evaluated desk.session.path item.line value)
    · simp only [if_pos hcannot]
      exact lasting_records.refl w
    · simp only [if_neg hcannot]
      exact cumulative_records.event w _

theorem runQueued_records (item : Queued) : Maintains DeskRecords (runQueued limits item) :=
  fun desk => lasting_records.trans (eval_records _ _ _ _ _ desk.world)
    (runQueued_records_eval item desk)

theorem runQueued_upToDepth (hle : depth ≤ depth') (item : Queued) :
    JobUpToDepth (runQueued ⟨depth, rounds⟩ item) (runQueued ⟨depth', rounds⟩ item) := by
  refine ⟨runQueued_records item, fun desk => ?_⟩
  have hrun := @runQueued_eq ⟨depth, rounds⟩ desk item
  have hrun' := @runQueued_eq ⟨depth', rounds⟩ desk item
  have hrecords := @runQueued_records_eval ⟨depth', rounds⟩ item desk
  dsimp only at hrun hrun' hrecords
  rcases (eval_upToDepth_of_le hle rounds desk.session.forms desk.session.globals
      item.program).ends desk.world with ⟨_, w, hdeep, rfl, hfirst⟩ | hsame
  · rw [hdeep] at hrun
    exact .inl ⟨_, _, hrun, rfl, lasting_records.trans hfirst hrecords⟩
  · rw [hsame] at hrun'
    cases heval : eval rounds depth desk.session.forms desk.session.globals item.program
        desk.world with
    | error halt w =>
      rw [heval] at hrun hrun'
      cases halt <;> exact .inr (hrun'.trans hrun.symm)
    | ok value w =>
      rw [stateAfter_of_ok (hsame.trans heval)] at hrecords
      simp only [heval] at hrun hrun'
      by_cases hcannot :
          desk.CannotLog ⟨depth, rounds⟩ (.evaluated desk.session.path item.line value)
      · rw [if_pos hcannot] at hrun
        exact .inl ⟨_, _, hrun, rfl, hrecords⟩
      · rw [if_neg hcannot] at hrun
        rw [if_neg (Desk.not_cannotLog_of_le hle hcannot)] at hrun'
        exact .inr (hrun'.trans hrun.symm)

theorem runAll_upToDepth (hle : depth ≤ depth') (items : List Queued) :
    JobUpToDepth (runAll ⟨depth, rounds⟩ items) (runAll ⟨depth', rounds⟩ items) := by
  induction items with
  | nil => exact .refl (.pure lasting_deskRecords ())
  | cons item rest ih =>
    rw [runAll_cons, runAll_cons]
    exact .bind lasting_deskRecords (runQueued_upToDepth hle item) fun _ => ih

theorem run_upToDepth (hle : depth ≤ depth') :
    JobUpToDepth (run ⟨depth, rounds⟩) (run ⟨depth', rounds⟩) := by
  have hR := lasting_deskRecords
  refine .bind hR (.refl (.get hR)) fun desk => ?_
  refine .bind hR (.refl fun desk => hR.refl desk) fun _ => ?_
  exact runAll_upToDepth hle desk.session.queue

theorem pop_records : Maintains DeskRecords pop := by
  intro desk
  rw [stateAfter, pop_eq]
  cases desk.session.results <;> exact lasting_records.refl desk.world

theorem showValue_records (value : Value) : Maintains DeskRecords (showValue limits value) := by
  intro desk
  rw [stateAfter, showValue]
  cases textOf limits value with
  | ok text => exact cumulative_records.event desk.world (.answer (text ++ "\n"))
  | error raised => exact lasting_records.refl desk.world

theorem showValue_upToDepth (hle : depth ≤ depth') (value : Value) :
    JobUpToDepth (showValue ⟨depth, rounds⟩ value) (showValue ⟨depth', rounds⟩ value) := by
  cases htext : value.text? depth false with
  | none =>
    have hdeep : showValue ⟨depth, rounds⟩ value = throw (.host .stackExhausted) := by
      simp only [showValue, textOf, htext]
    rw [hdeep]
    exact .of_throw rfl (showValue_records value)
  | some text =>
    have hsame : showValue ⟨depth', rounds⟩ value = showValue ⟨depth, rounds⟩ value := by
      simp only [showValue, textOf, htext, Value.text?_mono hle htext]
    rw [hsame]
    exact .refl (showValue_records value)

end Session

namespace Shell

theorem showResults_upToDepth (hle : depth ≤ depth') (count : Nat) :
    JobUpToDepth (showResults ⟨depth, rounds⟩ count) (showResults ⟨depth', rounds⟩ count) := by
  have hR := lasting_deskRecords
  induction count with
  | zero => exact .refl (.pure hR ())
  | succ count ih =>
    refine .bind hR (.refl Session.pop_records) fun value => ?_
    exact .bind hR (Session.showValue_upToDepth hle value) fun _ => ih

theorem runEntry_upToDepth (hle : depth ≤ depth') (text : String) (line : Nat) :
    JobUpToDepth (runEntry ⟨depth, rounds⟩ text line) (runEntry ⟨depth', rounds⟩ text line) := by
  have hR := lasting_deskRecords
  refine .bind hR (Session.add_upToDepth hle text line) fun _ => ?_
  refine .bind hR (Session.run_upToDepth hle) fun _ => ?_
  refine .bind hR (.refl (.get hR)) fun desk => ?_
  exact showResults_upToDepth hle desk.session.results.length

/-- The work was stopped for the lack of depth. -/
def EndsForDepth (limits : Limits) (text : String) (line : Nat) (desk : Desk) : Prop :=
  ∃ raised desk', runEntry limits text line desk = .error raised desk' ∧ raised.LacksDepth

/-- The limit on depth only cuts a run short. Work on a text that does not end for the lack of depth
comes to the same within every greater limit: the same values or the same error, shown alike, with the
same record and the same bindings. If it does end so, the lines that were written by then are the first
ones of those that are written within the greater limit. -/
theorem limit_only_cuts_short (rounds : Nat) {depth depth' : Nat} (hle : depth ≤ depth')
    (text : String) (line : Nat) (desk : Desk) :
    (¬ EndsForDepth ⟨depth, rounds⟩ text line desk →
      runEntry ⟨depth', rounds⟩ text line desk = runEntry ⟨depth, rounds⟩ text line desk) ∧
    (EndsForDepth ⟨depth, rounds⟩ text line desk → ∃ written more,
      World.lines (stateAfter (runEntry ⟨depth, rounds⟩ text line) desk).world.events =
        World.lines desk.world.events ++ written ∧
      World.lines (stateAfter (runEntry ⟨depth', rounds⟩ text line) desk).world.events =
        World.lines desk.world.events ++ written ++ more) := by
  have hshort := (@runEntry_upToDepth depth depth rounds (Nat.le_refl depth) text line).goesOn desk
  refine ⟨fun hends => ?_, fun hends => ?_⟩
  · rcases (@runEntry_upToDepth _ _ rounds hle text line).ends desk with
      ⟨raised, desk', hrun, hlacks, -⟩ | hsame
    · exact absurd ⟨raised, desk', hrun, hlacks⟩ hends
    · exact hsame
  · have hlong : DeskRecords (stateAfter (runEntry ⟨depth, rounds⟩ text line) desk)
        (stateAfter (runEntry ⟨depth', rounds⟩ text line) desk) := by
      rcases (@runEntry_upToDepth _ _ rounds hle text line).ends desk with
        ⟨raised, desk', hrun, -, hrecords⟩ | hsame
      · rwa [stateAfter_of_error hrun]
      · rw [stateAfter, stateAfter, hsame]
        exact lasting_deskRecords.refl _
    obtain ⟨added, hadded⟩ := hshort
    obtain ⟨more, hmore⟩ := hlong
    refine ⟨World.lines added, World.lines more, ?_, ?_⟩
    · rw [hadded, CommandLine.lines_append]
    · rw [hmore, hadded, CommandLine.lines_append, CommandLine.lines_append]

/-- A function that calls itself once, behind a first line. -/
def callsItselfOnce : String :=
  "do(print(\"a\"), define(f, fun(x, if(x, print(\"b\"), f(true)))), f(false))"

def freshDesk : Desk :=
  Session.start Session.console true .standard (.fresh true .plain) true false .empty

/-- With six levels the program gets to its first line only, and with more of them to both. -/
theorem limit_only_cuts_short_lines :
    6 ≤ 20 ∧ EndsForDepth ⟨6, 1⟩ callsItselfOnce 1 freshDesk ∧
      World.lines (stateAfter (runEntry ⟨6, 1⟩ callsItselfOnce 1) freshDesk).world.events = #["a"] ∧
      World.lines (stateAfter (runEntry ⟨20, 1⟩ callsItselfOnce 1) freshDesk).world.events =
        #["a", "b"] ∧
      ∃ written more,
        World.lines (stateAfter (runEntry ⟨6, 1⟩ callsItselfOnce 1) freshDesk).world.events =
          World.lines freshDesk.world.events ++ written ∧
        World.lines (stateAfter (runEntry ⟨20, 1⟩ callsItselfOnce 1) freshDesk).world.events =
          World.lines freshDesk.world.events ++ written ++ more := by
  have hstopped : (match runEntry ⟨6, 1⟩ callsItselfOnce 1 freshDesk with
      | .error raised _ => some raised
      | .ok .. => none) = some (.complaint .recursionTooDeep) := by decide +kernel
  have hends : EndsForDepth ⟨6, 1⟩ callsItselfOnce 1 freshDesk := by
    cases hrun : runEntry ⟨6, 1⟩ callsItselfOnce 1 freshDesk with
    | ok => simp only [hrun, reduceCtorEq] at hstopped
    | error raised desk' =>
      simp only [hrun, Option.some.injEq] at hstopped
      exact ⟨raised, desk', hrun, hstopped ▸ rfl⟩
  exact ⟨by decide, hends, by decide +kernel, by decide +kernel,
    (limit_only_cuts_short 1 (by decide) callsItselfOnce 1 freshDesk).2 hends⟩

end Shell

end CallScript
