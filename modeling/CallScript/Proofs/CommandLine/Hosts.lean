import CallScript.CommandLine.Run
import CallScript.Proofs.CommandLine.Options
import CallScript.Proofs.Session.FirstRun
import CallScript.Proofs.Session.Guarded
import CallScript.Proofs.Shell.Entry

/-!
# The hosts of a program

A program can be run on its own, given to the command line as a text or in a file, and typed into the
shell. All of them run it as the first program of a session and come to the same: the same lines and
warnings, the same value or the same error.
-/

namespace CallScript.CommandLine

open Session

variable {limits : Limits} {style : Text.Style} {text path : String}

section

variable (path : String) (interactive fatal : Bool)

/-- A task that runs a text as the first program at that desk and shows its value. -/
structure ShowsFirstRun (limits : Limits) (text : String) (task : Job Unit) (start desk : Desk) :
    Prop where
  stopped : ∀ raised desk', addRun limits text desk = .error raised desk' →
    task start = .error raised desk'
  done : ∀ v world shown, addRun limits text desk = .ok () ((desk.inWorld world).keeping v) →
    v.text? limits.depth false = some shown →
    ∃ session, session.verbose = desk.session.verbose ∧
      task start = .ok () ⟨session, world.withEvent (.answer (shown ++ "\n"))⟩

theorem showValue_eq {v : Value} {shown : String} (h : v.text? limits.depth false = some shown)
    (desk : Desk) : showValue limits v desk =
      .ok () (desk.inWorld (desk.world.withEvent (.answer (shown ++ "\n")))) := by
  simp only [showValue, textOf, h]
  rfl

theorem value_eq (text : String) : value limits text = addRun limits text >>= fun _ => pop := by
  rw [addRun, bind_assoc]
  rfl

theorem valueOfFragments_singleton (text : String) :
    valueOfFragments limits [text] = addRun limits text >>= fun _ => pop := by
  rw [valueOfFragments, String.intercalate_singleton, value_eq]

theorem pop_keeping (style : Text.Style) (world : World) (v : Value) :
    pop (((opened path interactive fatal style).inWorld world).keeping v) =
      .ok v ((opened path interactive fatal style).inWorld world) :=
  rfl

theorem showsFirstRun_runText (style : Text.Style) (text : String) :
    ShowsFirstRun limits text (runText limits (some text)) (opened console true false style)
      (opened console true true style) := by
  have htask : runText limits (some text) (opened console true false style) =
      (value limits text >>= showValue limits) (opened console true true style) := rfl
  constructor
  · intro raised desk' h
    rw [htask, value_eq, Job.bind_error (Job.bind_error h)]
  · intro v world shown h hshown
    rw [htask, value_eq, bind_assoc, Job.bind_ok h, Job.bind_ok (pop_keeping ..), showValue_eq hshown]
    exact ⟨_, rfl, rfl⟩

theorem unifyLineEnds_of_not_mem {cs : List Char} (h : '\r' ∉ cs) : Text.unifyLineEnds cs = cs := by
  induction cs with
  | nil => rfl
  | cons c rest ih =>
    obtain ⟨hc, hrest⟩ := not_or.1 (List.mem_cons.not.1 h)
    rw [Text.unifyLineEnds, ih hrest]
    · rintro rest' rfl
      exact absurd rfl hc
    · rintro rfl
      exact absurd rfl hc

theorem showsFirstRun_runFile (style : Text.Style) {text : String} {bytes : List UInt8}
    (hblank : Text.isBlankText text.toList = false) (hreturn : '\r' ∉ text.toList)
    (hconsole : path ≠ console) (hnull : '\x00' ∉ path.toList)
    (hdecode : Text.Utf8.decode bytes = .ok text.toList) :
    ShowsFirstRun limits text (runFile limits (some bytes)) (opened path false true style)
      (opened path false true style) := by
  have hfile : decodeFile bytes = .ok text.toList := by
    rw [decodeFile, hdecode]
    exact congrArg Except.ok (unifyLineEnds_of_not_mem hreturn)
  have hpath : (opened path false true style).session.path = path := rfl
  have hload : load limits (some bytes) (opened path false true style) =
      add limits text 1 (opened path false true style) := by
    rw [load, get_bind]
    simp only [hpath, if_neg hconsole, String.contains_char_eq, hnull, hfile, hblank,
      String.ofList_toList]
    rfl
  have htask : runFile limits (some bytes) (opened path false true style) =
      (addRun limits text >>= fun _ => get >>= fun desk : Desk => showAll limits desk.session.results)
        (opened path false true style) := by
    rw [addRun, bind_assoc]
    simp only [runFile, bind, EStateM.bind, hload]
  constructor
  · intro raised desk' h
    rw [htask, Job.bind_error h]
  · intro v world shown h hshown
    let desk := ((opened path false true style).inWorld world).keeping v
    have hshow : (get >>= fun desk : Desk => showAll limits desk.session.results) desk =
        (showValue limits v >>= fun _ => pure ()) desk := rfl
    refine ⟨desk.session, rfl, ?_⟩
    rw [htask, Job.bind_ok h, hshow, Job.bind_ok (showValue_eq hshown _)]
    rfl

theorem showsFirstRun_runEntry (style : Text.Style) (text : String) :
    ShowsFirstRun limits text (Shell.runEntry limits text 1) (opened console true false style)
      (opened console true false style) := by
  have htask : Shell.runEntry limits text 1 =
      addRun limits text >>= fun _ => get >>= fun desk : Desk =>
        Shell.showResults limits desk.session.results.length := by
    rw [addRun, bind_assoc]
    rfl
  constructor
  · intro raised desk' h
    rw [htask, Job.bind_error h]
  · intro v world shown h hshown
    let desk := ((opened console true false style).inWorld world).keeping v
    have hshow : (get >>= fun desk : Desk =>
          Shell.showResults limits desk.session.results.length) desk =
        (pop >>= fun v => showValue limits v >>= fun _ => pure ()) desk := rfl
    rw [htask, Job.bind_ok h, hshow, Job.bind_ok (pop_keeping ..), Job.bind_ok (showValue_eq hshown _)]
    exact ⟨_, rfl, rfl⟩

end

def ended (exit : Option (Option Int)) (record : Array Event) (behind : String) : Outcome :=
  ⟨exit, linesText record ++ behind, logText false record⟩

theorem ended_of_shownAlike {events events' : Array Event} (h : ShownAlike events events')
    (exit : Option (Option Int)) (behind : String) :
    ended exit events behind = ended exit events' behind := by
  rw [ended, ended, linesText, linesText, h.lines, h.logged]

section

variable {path : String} {interactive fatal : Bool} {task : Job Unit} {start : Desk}

theorem report_working_opened (d : Diagnostic) :
    ((opened path interactive fatal style).working text 1).session.reporter.report d =
      Reporter.reportIn style path text d := by
  simp [Desk.working, opened, Reporter.enter, Reporter.setTrace, Reporter.reportIn]
  rfl

theorem guarded_of_value
    (h : ShowsFirstRun limits text task start (opened path interactive fatal style)) {v : Value}
    (hv : (firstRun limits text).1 = .ok v) {shown : String}
    (hshown : v.text? limits.depth false = some shown) :
    ∃ desk, Job.guarded task start = .ok false desk ∧
      outcomeOf.written none desk = ended none (firstRun limits text).2 (shown ++ "\n") := by
  obtain ⟨world, hrecord, hrun⟩ := addRun_opened path interactive fatal style limits text
  simp only [hv] at hrun
  obtain ⟨session, hverbose, htask⟩ := h.done v world shown hrun hshown
  have hverbose : session.verbose = false := hverbose
  refine ⟨_, Job.guarded_ok htask, ?_⟩
  simp only [outcomeOf.written, World.withEvent, shownText_push_answer, logText_push_answer,
    hverbose, hrecord.shown, hrecord.logged, ended, shownText_of_program (ofProgram_firstRun text)]

theorem guarded_of_complaint
    (h : ShowsFirstRun limits text task start (opened path interactive fatal style))
    {d : Diagnostic} (hd : (firstRun limits text).1 = .error (.complaint d)) :
    ∃ desk, Job.guarded task start = (if fatal then .error (.exit (some 1)) desk else .ok true desk) ∧
      ∀ exit, outcomeOf.written exit desk =
        ended exit (firstRun limits text).2 (Reporter.reportIn style path text d) := by
  obtain ⟨world, hrecord, hrun⟩ := addRun_opened path interactive fatal style limits text
  simp only [hd] at hrun
  have htask := h.stopped _ _ hrun
  let desk := ((opened path interactive fatal style).working text 1).inWorld world
  have hreport : desk.session.reporter.report d = Reporter.reportIn style path text d :=
    report_working_opened d
  have hwritten : ∀ exit, outcomeOf.written exit (desk.reporting d) =
      ended exit (firstRun limits text).2 (Reporter.reportIn style path text d) := by
    intro exit
    have hverbose : (desk.reporting d).session.verbose = false := rfl
    rw [outcomeOf.written, hverbose]
    simp only [Desk.reporting, Desk.inWorld, World.withEvent, shownText_push_report,
      logText_push_report, hreport]
    simp only [desk, Desk.inWorld, hrecord.shown, hrecord.logged, ended,
      shownText_of_program (ofProgram_firstRun text)]
  cases fatal with
  | true => exact ⟨desk.reporting d, Job.guarded_fatal htask rfl, hwritten⟩
  | false => exact ⟨(desk.reporting d).idle, Job.guarded_suppressed htask rfl, hwritten⟩

end

section

variable (read : String → Option (List UInt8)) (input : List String)

theorem run_eval (h : text ≠ "--") : run limits style read input ["--eval=" ++ text] =
    outcomeOf id (Job.guarded (runText limits (some text)) (opened console true false style)) := by
  rw [run, parse_eval h]
  rfl

theorem run_path {bytes : List UInt8} (h : path.toList.head? ≠ some '-')
    (hread : read path = some bytes) : run limits style read input [path] =
      outcomeOf id (Job.guarded (runFile limits (some bytes)) (opened path false true style)) := by
  rw [run, parse_path h]
  simp only [follow, hread]
  rfl

end

/-- A shell that was given one line. -/
def afterLine (desk : Desk) : Shell :=
  ⟨desk, "", 1, 1, .first⟩

theorem enter_ofDesk (hblank : Text.isBlankText text.toList = false)
    (hdone : (Shell.preprocess text).2 = false) (desk : Desk) :
    Shell.enter limits text (.ofDesk desk) =
      match Job.guarded (Shell.runEntry limits (Shell.preprocess text).1 1) desk with
      | .ok _ desk => .ok () (afterLine desk)
      | .error raised desk => .error raised (afterLine desk) := by
  have hkept : Text.isBlankText (Shell.preprocess text).1.toList = false := by
    rw [Shell.preprocess, String.toList_ofList, Text.isBlankText_trimEnd, hblank]
  have hentry : Shell.preprocess ((Shell.ofDesk desk).pending ++ text) = Shell.preprocess text := by
    rw [Shell.ofDesk, String.empty_append]
  have henter : Shell.enter limits text (.ofDesk desk) =
      Shell.underGuard (Shell.runEntry limits (Shell.preprocess text).1 1) (afterLine desk) := by
    rw [Shell.enter_eq]
    simp only [hentry, hdone, hkept, Bool.false_eq_true, if_false]
    rfl
  have hdesk : (afterLine desk).desk = desk := rfl
  rw [henter]
  simp only [Shell.underGuard, Shell.atDesk, bind, EStateM.bind, hdesk]
  cases Job.guarded (Shell.runEntry limits (Shell.preprocess text).1 1) desk <;> rfl

/-- How the command line ends that was given a text or its file, and the shell that it was typed into,
if the text ends like this on its own. -/
inductive HostsAgree (limits : Limits) (style : Text.Style) (path text : String)
    (given inFile typed : Outcome) : EStateM.Result Raised Desk Value → Prop where
  /-- All write the same lines and show the value, if there is room for its text. -/
  | value {v desk} (each : ∀ shown, v.text? limits.depth false = some shown →
      ∀ outcome ∈ [given, inFile, typed],
        outcome = ended none desk.world.events (shown ++ "\n")) :
      HostsAgree limits style path text given inFile typed (.ok v desk)
  /-- All write the same lines and report the error, under the path that they know the text by. The
  process ends, but not the shell, which was given the text without the blanks at its end. -/
  | complaint {d d' desk} (same : SameComplaint text (Shell.preprocess text).1 d d')
      (reported : given = ended (some (some 1)) desk.world.events
        (Reporter.reportIn style console text d))
      (reportedInFile : inFile = ended (some (some 1)) desk.world.events
        (Reporter.reportIn style path text d))
      (reportedTyped : typed = ended none desk.world.events
        (Reporter.reportIn style console (Shell.preprocess text).1 d')) :
      HostsAgree limits style path text given inFile typed (.error (.complaint d) desk)
  | endless {desk} :
      HostsAgree limits style path text given inFile typed (.error (.ofHalt .outOfRounds) desk)

/-- All hosts agree on what a program does. A text that is not blank and leaves nothing open is run on
its own, given to the command line, read from a file that holds it, and typed into a shell. All write
the same lines, and all show the value, or all report the same error. Then the command line ends the
process and the shell does not. The reports of an error that lies in the text show the same place and
differ in the path; in the shell the line shown may lack blanks at its end, and nothing else. -/
theorem hosts_agree (limits : Limits) (style : Text.Style) (read : String → Option (List UInt8))
    (input : List String) {text path : String} {bytes : List UInt8}
    (hblank : Text.isBlankText text.toList = false) (hreturn : '\r' ∉ text.toList)
    (hdone : (Shell.preprocess text).2 = false) (hseparator : text ≠ "--")
    (hconsole : path ≠ console) (hdash : path.toList.head? ≠ some '-')
    (hnull : '\x00' ∉ path.toList) (hread : read path = some bytes)
    (hdecode : Text.Utf8.decode bytes = .ok text.toList) :
    let desk := start console true .standard (.fresh true style) true false .empty
    HostsAgree limits style path text (run limits style read input ["--eval=" ++ text])
      (run limits style read input [path])
      (outcomeOf Shell.desk (Shell.enter limits text (.ofDesk desk)))
      (valueOfFragments limits [text] desk) := by
  have hgiven := @showsFirstRun_runText limits style text
  have hinFile := @showsFirstRun_runFile limits path style text bytes hblank hreturn hconsole hnull hdecode
  have htyped := @showsFirstRun_runEntry limits style (Shell.preprocess text).1
  obtain ⟨hrecord, hsame⟩ := @firstRun_preprocess limits text hblank hdone
  obtain ⟨world, hevents, hrun⟩ := addRun_opened console true false style limits text
  intro desk
  have hdesk : desk = opened console true false style := start_eq_opened ..
  have hended := ended_of_shownAlike hevents
  rw [run_eval read input hseparator, run_path read input hdash hread, valueOfFragments_singleton,
    hdesk, enter_ofDesk hblank hdone]
  -- What the text comes to decides how each host ends; the shell has it without the blanks at its end.
  generalize hending : (firstRun limits text).1 = ending at hrun hsame
  generalize hending' : (firstRun limits (Shell.preprocess text).1).1 = ending' at hsame
  cases hsame with
  | @value v =>
    rw [Job.bind_ok hrun, pop_keeping]
    refine .value fun shown hshown => ?_
    obtain ⟨_, hgiven, hgivenEnd⟩ := guarded_of_value hgiven hending hshown
    obtain ⟨_, hinFile, hinFileEnd⟩ := guarded_of_value hinFile hending hshown
    obtain ⟨_, htyped, htypedEnd⟩ := guarded_of_value htyped hending' hshown
    rw [hrecord] at htypedEnd
    rw [hgiven, hinFile, htyped]
    simp only [List.mem_cons, List.not_mem_nil, or_false, forall_eq_or_imp, forall_eq]
    exact ⟨hgivenEnd.trans (hended ..), hinFileEnd.trans (hended ..), htypedEnd.trans (hended ..)⟩
  | @complaint d d' same =>
    rw [Job.bind_error hrun]
    obtain ⟨_, hgiven, hgivenEnd⟩ := guarded_of_complaint hgiven hending
    obtain ⟨_, hinFile, hinFileEnd⟩ := guarded_of_complaint hinFile hending
    obtain ⟨_, htyped, htypedEnd⟩ := guarded_of_complaint htyped hending'
    rw [hrecord] at htypedEnd
    rw [hgiven, hinFile, htyped]
    exact .complaint same ((hgivenEnd _).trans (hended ..)) ((hinFileEnd _).trans (hended ..))
      ((htypedEnd _).trans (hended ..))
  | endless =>
    rw [Job.bind_error hrun]
    exact .endless

/-- A text that ends in a blank is refused where it ends without one. -/
theorem hosts_agree_two_numbers :
    let text := "1 2 "
    let path := "two.egg"
    let read := fun name => if name = path then some [0x31, 0x20, 0x32, 0x20] else none
    let desk := start console true .standard (.fresh true .plain) true false .empty
    (Text.isBlankText text.toList = false ∧ '\r' ∉ text.toList ∧ (Shell.preprocess text).2 = false ∧
      text ≠ "--") ∧
    (path ≠ console ∧ path.toList.head? ≠ some '-' ∧ '\x00' ∉ path.toList ∧
      read path = some [0x31, 0x20, 0x32, 0x20] ∧
      Text.Utf8.decode [0x31, 0x20, 0x32, 0x20] = .ok text.toList) ∧
    HostsAgree .standard .plain path text (run .standard .plain read [] ["--eval=" ++ text])
      (run .standard .plain read [] [path])
      (outcomeOf Shell.desk (Shell.enter .standard text (.ofDesk desk)))
      (valueOfFragments .standard [text] desk) := by
  intro text path read desk
  have htext : Text.isBlankText text.toList = false ∧ '\r' ∉ text.toList ∧
      (Shell.preprocess text).2 = false ∧ text ≠ "--" := by decide
  have hpath : path ≠ console ∧ path.toList.head? ≠ some '-' ∧ '\x00' ∉ path.toList ∧
      read path = some [0x31, 0x20, 0x32, 0x20] ∧
      Text.Utf8.decode [0x31, 0x20, 0x32, 0x20] = .ok text.toList :=
    ⟨by decide, by decide, by decide, rfl, by decide⟩
  obtain ⟨hblank, hreturn, hdone, hseparator⟩ := htext
  obtain ⟨hconsole, hdash, hnull, hread, hdecode⟩ := hpath
  exact ⟨⟨hblank, hreturn, hdone, hseparator⟩, ⟨hconsole, hdash, hnull, hread, hdecode⟩,
    hosts_agree .standard .plain read [] hblank hreturn hdone hseparator hconsole hdash hnull hread
      hdecode⟩

theorem parse_two_numbers (depth : Nat) (blanks : List Char) :
    Grammar.parse (depth + 1) (String.ofList ('1' :: ' ' :: '2' :: blanks)) =
      .error (.refused .trailing 2) := by
  have hnumber : Grammar.Primary (Text.skipBlanks ('1' :: ' ' :: '2' :: blanks))
      (Grammar.numberLiteral ['1']) (' ' :: '2' :: blanks) :=
    .number ⟨rfl, by decide, List.all_eq_true.1 (by decide), rfl⟩
  have hbehind : Text.skipBlanks (' ' :: '2' :: blanks) = '2' :: blanks := rfl
  have hread : Grammar.readExpression (depth + 1) ('1' :: ' ' :: '2' :: blanks) =
      .ok (Grammar.numberLiteral ['1'], '2' :: blanks) := by
    rw [Grammar.readExpression_primary hnumber, Grammar.readCalls_done (by rw [hbehind]; simp), hbehind]
  have hprogram : Grammar.program (depth + 1) ('1' :: ' ' :: '2' :: blanks) =
      .error (.refused .trailing ('2' :: blanks)) := by
    rw [Grammar.program_eq, hread]
    rfl
  rw [Grammar.parse_ofList, hprogram]
  simp

/-- The shell does not show a blank at the end of the line in which the error lies, and the command line
does. -/
theorem shell_omits_blank_behind_error :
    let text := "1 2 "
    let desk := start console true .standard (.fresh true .plain) true false .empty
    let shown := (run .standard .plain (fun _ => none) [] ["--eval=" ++ text]).out
    let typed := (outcomeOf Shell.desk (Shell.enter .standard text (.ofDesk desk))).out
    (Text.isBlankText text.toList = false ∧ '\r' ∉ text.toList ∧ (Shell.preprocess text).2 = false) ∧
      shown = "<in>:1:3: error: SyntaxError: Unexpected text after program\n  1 2 \n    ^\n" ∧
      typed = "<in>:1:3: error: SyntaxError: Unexpected text after program\n  1 2\n    ^\n" ∧
      shown ≠ typed := by
  intro text desk shown typed
  have hrun : ∀ blanks, firstRun .standard (String.ofList ('1' :: ' ' :: '2' :: blanks)) =
      (.error (.complaint (.ofRefusal (String.ofList ('1' :: ' ' :: '2' :: blanks)) .trailing 2)),
        #[]) := by
    intro blanks
    have hparse := parse_two_numbers 399 blanks
    have hdepth : Limits.standard.depth = 399 + 1 := rfl
    rw [firstRun, hdepth, hparse]
  have hfirst := hrun [' ']
  have hkept := hrun []
  have hshown : shown = (ended (some (some 1)) #[]
      (Reporter.reportIn .plain console text (.ofRefusal text .trailing 2))).out := by
    obtain ⟨_, hguarded, hended⟩ :=
      guarded_of_complaint (showsFirstRun_runText .plain text) (congrArg Prod.fst hfirst)
    have hevents : (firstRun .standard text).2 = #[] := congrArg Prod.snd hfirst
    rw [hevents] at hended
    have hend := @run_eval .standard .plain text (fun _ => none) [] (by decide)
    rw [hguarded] at hend
    exact (congrArg Outcome.out hend).trans (congrArg Outcome.out (hended _))
  have htyped : typed = (ended none #[]
      (Reporter.reportIn .plain console "1 2" (.ofRefusal "1 2" .trailing 2))).out := by
    obtain ⟨_, hguarded, hended⟩ :=
      guarded_of_complaint (showsFirstRun_runEntry .plain "1 2") (congrArg Prod.fst hkept)
    have hevents : (firstRun .standard "1 2").2 = #[] := congrArg Prod.snd hkept
    rw [hevents] at hended
    have hend := @enter_ofDesk .standard text (by decide) (by decide) desk
    have hkeeps : (Shell.preprocess text).1 = "1 2" := by decide
    have hdesk : desk = opened console true false .plain := rfl
    rw [hkeeps, hdesk, hguarded] at hend
    exact (congrArg (Outcome.out ∘ outcomeOf Shell.desk) hend).trans (congrArg Outcome.out (hended _))
  rw [hshown, htyped]
  exact ⟨by decide, by decide +kernel, by decide +kernel, by decide +kernel⟩

end CallScript.CommandLine
