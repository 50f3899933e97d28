import CallScript.Proofs.Grammar.ClosedUp
import CallScript.Proofs.Report.History
import CallScript.Proofs.Session.Accounting
import CallScript.Proofs.Shell.Console

/-!
# Lines that reports quote

The report of an error that has no place in a source quotes a line of the program that failed, under the
number of the line that the program starts at. What it quotes is the first line with something in it, and
that only up to the first of all line ends, so it need not be the line of that number. It is this line
exactly if the program begins on its first line, with no other line end inside this line and no blanks
left at the end of it.
-/

namespace CallScript

namespace Text

variable {cs line : List Char}

/-- The line of that number among the pieces that line feeds cut a text into, without the blanks around
it. -/
def strippedLine (cs : List Char) (number : Nat) : Option (List Char) :=
  (lines cs)[number]?.map trim

theorem strippedLine_zero (cs : List Char) :
    strippedLine cs 0 = some (trim (cs.takeWhile (· != '\n'))) := by
  rw [strippedLine, getElem?_lines_zero, Option.map_some]

/-- The text begins with this line, which begins and ends with a character that is no blank and has no line
end in it. Before it there may be blanks but no line feed. Behind it there are only blanks up to the next
line feed, and unless nothing but blanks follows, a line end comes first. -/
inductive BeginsOnFirstLine (cs : List Char) : List Char → Prop where
  | mk {front c more rest} (whole : cs = front ++ (c :: more ++ rest))
      (blankFront : isBlankText front = true) (feedless : '\n' ∉ front) (first : isBlank c = false)
      (last : (c :: more).getLast?.any isBlank = false)
      (single : ∀ d ∈ c :: more, isLineEnd d = false)
      (blankBehind : isBlankText (rest.takeWhile (· != '\n')) = true)
      (ends : isBlankText rest = true ∨ rest.head?.any isLineEnd = true) :
      BeginsOnFirstLine cs (c :: more)

/-- A text that is trimmed to what it begins with has only blanks behind it. -/
theorem isBlankText_of_trimEnd_append (rest : List Char) (h : trimEnd (line ++ rest) = line) :
    isBlankText rest = true := by
  obtain ⟨blanks, hblanks, hkept⟩ := exists_blanks_behind (line ++ rest)
  rw [h] at hkept
  rwa [List.append_cancel_left hkept]

theorem trim_append {front : List Char} {c : Char} (hfront : isBlankText front = true)
    (hc : isBlank c = false) (rest : List Char) :
    trim (front ++ c :: rest) = trimEnd (c :: rest) := by
  rw [trim, Grammar.skipBlanks_blanks_cons hfront hc]

theorem takeWhile_newline_append {more : List Char} (h : '\n' ∉ line) :
    (line ++ more).takeWhile (· != '\n') = line ++ more.takeWhile (· != '\n') :=
  List.takeWhile_append_of_pos (ne_newline_of_not_mem h)

theorem not_mem_of_single (h : ∀ c ∈ line, isLineEnd c = false) : '\n' ∉ line :=
  fun hmem => absurd (h '\n' hmem) (by decide)

theorem BeginsOnFirstLine.trim_firstPiece (h : BeginsOnFirstLine cs line) :
    trim (cs.takeWhile (· != '\n')) = line := by
  cases h with
  | @mk front c more rest whole blankFront feedless first last single blankBehind ends =>
    rw [whole, takeWhile_newline_append feedless, takeWhile_newline_append (not_mem_of_single single),
      List.cons_append, trim_append blankFront first, ← List.cons_append,
      trimEnd_append_blanks _ blankBehind, trimEnd_eq_self last]

theorem BeginsOnFirstLine.firstLine_trim (h : BeginsOnFirstLine cs line) :
    firstLine (trim cs) = line := by
  cases h with
  | @mk front c more rest whole blankFront feedless first last single blankBehind ends =>
    have hkeeps : ∀ d ∈ c :: more, (!isLineEnd d) = true := by simpa using single
    rw [whole, List.cons_append, trim_append blankFront first, ← List.cons_append]
    cases hblank : isBlankText rest with
    | true =>
      rw [trimEnd_append_blanks _ hblank, trimEnd_eq_self last, firstLine,
        List.takeWhile_eq_self_iff.2 hkeeps]
    | false =>
      rw [trimEnd_append hblank, firstLine, takeWhile_append_of_stop hkeeps]
      -- The line end stays, as there is something behind it.
      rw [hblank, or_iff_right Bool.false_ne_true] at ends
      obtain ⟨behind, -, hkept⟩ := exists_blanks_behind rest
      cases hend : trimEnd rest with
      | nil => rfl
      | cons d after =>
        rw [hend, List.cons_append] at hkept
        rw [hkept] at ends
        simpa using ends

/-- Such a line as a report quotes is the first of the pieces that line feeds cut the text into, without
the blanks around it, only if the text begins with it. -/
theorem beginsOnFirstLine_of_eq (hblank : isBlankText cs = false)
    (h : trim (cs.takeWhile (· != '\n')) = firstLine (trim cs)) :
    BeginsOnFirstLine cs (firstLine (trim cs)) := by
  have hlast : (firstLine (trim cs)).getLast?.any isBlank = false :=
    h ▸ (Shell.withoutBlanksBehind_trimEnd _).last
  have hbegins := beginsWithLine_firstLine hblank
  generalize firstLine (trim cs) = quoted at h hlast hbegins
  cases hbegins with
  | @mk front c more rest behind whole blankFront blankBehind first last single ends =>
    have hwhole : cs = front ++ (c :: more ++ (rest ++ behind)) := by
      rw [whole, List.append_assoc, List.append_assoc]
    have hfeedless : '\n' ∉ front := by
      intro hmem
      obtain ⟨before, after, hfront, hbefore⟩ := List.eq_append_cons_of_mem hmem
      rw [hwhole, hfront, List.append_assoc, List.cons_append, takeWhile_append_of_stop
        (ne_newline_of_not_mem hbefore) (by simp)] at h
      rw [hfront, isBlankText_append, Bool.and_eq_true] at blankFront
      rw [trim_eq_nil_iff.2 blankFront.1] at h
      cases h
    refine .mk hwhole blankFront hfeedless first hlast single ?_ ?_
    · rw [hwhole, takeWhile_newline_append hfeedless,
        takeWhile_newline_append (not_mem_of_single single), List.cons_append,
        trim_append blankFront first, ← List.cons_append] at h
      exact isBlankText_of_trimEnd_append _ h
    · rcases ends with rfl | ⟨d, after, rfl, hd⟩
      · exact .inl blankBehind
      · exact .inr (by simpa using hd)

/-- When a report quotes the first piece of a text without the blanks around it. -/
theorem strippedLine_zero_eq_iff (hblank : isBlankText cs = false) :
    strippedLine cs 0 = some (firstLine (trim cs)) ↔ ∃ line, BeginsOnFirstLine cs line := by
  rw [strippedLine_zero, Option.some_inj]
  constructor
  · intro h
    exact ⟨_, beginsOnFirstLine_of_eq hblank h⟩
  · rintro ⟨line, h⟩
    rw [h.trim_firstPiece, h.firstLine_trim]

end Text

open Text

namespace Reporter

/-- What stops work is reported, and not with a place in a source. -/
inductive Unlocated : Raised → Prop where
  | complaint {d} (h : isLocated d = false) : Unlocated (.complaint d)
  | host (fault : HostFault) : Unlocated (.host fault)

theorem throw_report (r : Reporter) (d : Diagnostic) : (r.throw d).report = r.report d := by
  rw [throw]
  split <;> rfl

def unknown (fault : HostFault) : Diagnostic :=
  { kind := .error
    message := "unknown error: '" ++ fault.name ++ ": " ++ fault.message ++ "'"
    internal := true }

theorem guard_unknown_report (r : Reporter) {fault : HostFault} (hinterrupted : fault ≠ .interrupted)
    (hstack : fault ≠ .stackExhausted) :
    (r.guard (.host fault)).report = r.report (unknown fault) := by
  have hguard : (r.guard (.host fault)).report = (r.throw (unknown fault)).report := by
    simp only [guard, unknown]
    split <;> rfl
  rw [hguard, throw_report]

theorem guard_report {raised : Raised} (h : Unlocated raised) (r : Reporter) :
    ∃ d, isLocated d = false ∧ (r.guard raised).report = r.report d := by
  cases h with
  | @complaint d h => exact ⟨d, h, r.throw_report d⟩
  | host fault =>
    by_cases hinterrupted : fault = .interrupted
    · subst hinterrupted
      exact ⟨_, rfl, r.throw_report _⟩
    by_cases hstack : fault = .stackExhausted
    · subst hstack
      exact ⟨_, rfl, r.throw_report _⟩
    · exact ⟨unknown fault, rfl, r.guard_unknown_report hinterrupted hstack⟩

/-- What a report quotes of a program: a file, a number and a line. -/
def quotation (path : String) (number : Int) (line : List Char) : String :=
  "  File '" ++ path ++ "', line " ++ toString number ++ ":\n    " ++ String.ofList line ++ "\n"

theorem traceEntry_of_not_blank {source : String} (h : isBlankText source.toList = false)
    (path : String) (number : Int) :
    traceEntry ⟨path, source, number⟩ =
      some (quotation path number (firstLine (trim source.toList))) := by
  simp only [traceEntry, isEmpty_trim h, Bool.false_eq_true, if_false]
  rfl

theorem exists_traceList_eq {r : Reporter} {trace : Trace} {entry : String} (h : trace ∈ r.traces)
    (hentry : traceEntry trace = some entry) :
    ∃ before after : List String, r.traceList =
      (if before = [] ∧ after = [] then "" else "Traceback:\n") ++
        String.join (before ++ entry :: after) := by
  obtain ⟨before, after, htraces⟩ := List.append_of_mem h
  refine ⟨before.filterMap traceEntry, after.filterMap traceEntry, ?_⟩
  rw [traceList, htraces, List.filterMap_append, List.filterMap_cons_some hentry]
  congr 1
  cases before.filterMap traceEntry <;> cases after.filterMap traceEntry <;> simp

end Reporter

namespace Session

variable {limits : Limits} {desk desk' : Desk} {item : Queued} {raised : Raised}

theorem path_of_runQueued_ok (h : runQueued limits item desk = .ok () desk') :
    desk'.session.path = desk.session.path := by
  rw [runQueued_eq] at h
  cases heval : eval limits.rounds limits.depth desk.session.forms desk.session.globals item.program
      desk.world with
  | error halt w => cases halt <;> rw [heval] at h <;> cases h
  | ok value w =>
    simp only [heval] at h
    split at h
    · cases h
    · cases h
      rfl

theorem runQueued_error (h : runQueued limits item desk = .error raised desk') :
    Reporter.Unlocated raised ∧
      desk'.session.entry = some ⟨desk.session.path, some item.source, some item.line⟩ := by
  have hentry (w : World) : ((desk.working item.source item.line).inWorld w).session.entry =
      some ⟨desk.session.path, some item.source, some item.line⟩ :=
    entry_working item.source item.line desk
  rw [runQueued_eq] at h
  cases heval : eval limits.rounds limits.depth desk.session.forms desk.session.globals item.program
      desk.world with
  | error halt w =>
    rw [heval] at h
    cases halt with
    | fault cause =>
      cases h
      exact ⟨.complaint (isLocated_ofFault cause), hentry w⟩
    | tooDeep =>
      cases h
      exact ⟨.complaint rfl, hentry w⟩
    | outOfRounds =>
      cases h
      exact ⟨.host _, hentry w⟩
  | ok value w =>
    simp only [heval] at h
    split at h
    · cases h
      exact ⟨.host _, hentry w⟩
    · cases h

theorem runAll_error {items : List Queued} (h : runAll limits items desk = .error raised desk') :
    ∃ item ∈ items, Reporter.Unlocated raised ∧
      desk'.session.entry = some ⟨desk.session.path, some item.source, some item.line⟩ := by
  induction items generalizing desk with
  | nil => cases h
  | cons item rest ih =>
    rw [runAll_cons] at h
    cases hrun : runQueued limits item desk with
    | ok _ between =>
      rw [Job.bind_ok hrun] at h
      obtain ⟨later, hlater, hstopped⟩ := ih h
      rw [path_of_runQueued_ok hrun] at hstopped
      exact ⟨later, List.mem_cons_of_mem _ hlater, hstopped⟩
    | error _ _ =>
      rw [Job.bind_error hrun] at h
      cases h
      exact ⟨item, List.mem_cons_self, runQueued_error hrun⟩

/-- The report of an error that stops a run is not one with a place. It quotes a line under the number that
the program which failed starts at, as long as this program has something to show. The quoted line is the
first one with something in it, up to the first line end of any kind. It is the line of that number exactly
if the program begins on its first line. -/
theorem quoted_line_is_numbered_line_iff (limits : Limits) (desk desk' : Desk) (raised : Raised)
    (h : run limits desk = .error raised desk') :
    ∃ item ∈ desk.session.queue,
      desk'.session.entry = some ⟨desk.session.path, some item.source, some item.line⟩ ∧
      (isBlankText item.source.toList = false →
        ∃ d before after number quoted, Reporter.isLocated d = false ∧
          (desk'.session.reporter.guard raised).report =
            (if before = [] ∧ after = [] then "" else "Traceback:\n") ++
              String.join (before ++ Reporter.quotation desk.session.path number quoted :: after) ++
              Reporter.headline desk'.session.reporter.style d ∧
          number = item.line ∧ BeginsWithLine item.source.toList quoted ∧
          (strippedLine item.source.toList (number - item.line).toNat = some quoted ↔
            ∃ line, BeginsOnFirstLine item.source.toList line)) := by
  rw [run_eq] at h
  obtain ⟨item, hitem, hunlocated, hentry⟩ := runAll_error h
  refine ⟨item, hitem, hentry, fun hshown => ?_⟩
  obtain ⟨d, hd, hreport⟩ := Reporter.guard_report hunlocated desk'.session.reporter
  obtain ⟨before, after, hlist⟩ := Reporter.exists_traceList_eq (List.mem_of_find?_eq_some hentry)
    (Reporter.traceEntry_of_not_blank hshown desk.session.path item.line)
  refine ⟨d, before, after, item.line, _, hd, ?_, rfl, beginsWithLine_firstLine hshown, ?_⟩
  · rw [hreport, Reporter.report_of_not_located hd, hlist]
  · rw [Int.sub_self]
    exact strippedLine_zero_eq_iff hshown

theorem runQueued_undefined {depth rounds : Nat} {source name : String} {line : Int}
    (h : lookup desk.world.frames name desk.session.globals = none) :
    runQueued ⟨depth + 1, rounds⟩ ⟨source, .word name, line⟩ desk =
      .error (.complaint (.ofFault (.undefined name))) (desk.working source line) := by
  have heval : eval rounds (depth + 1) desk.session.forms desk.session.globals (.word name) desk.world =
      .error (.fault (.undefined name)) desk.world := by
    rw [eval, World.fetch_eq, h]
    rfl
  rw [runQueued_eq, heval]
  rfl

/-- The second of two programs fails. It begins on its first line, with blanks around it. -/
theorem quoted_line_is_numbered_line_iff_second :
    let opened := start console true .standard (.fresh true .plain) true false .empty
    let desk := (opened.queueing ⟨"true", .literal (.boolean true), 1⟩).queueing ⟨" y \n", .word "y", 2⟩
    ∃ raised desk', run .standard desk = .error raised desk' ∧
      ∃ item ∈ desk.session.queue,
        desk'.session.entry = some ⟨desk.session.path, some item.source, some item.line⟩ ∧
        (isBlankText item.source.toList = false →
          ∃ d before after number quoted, Reporter.isLocated d = false ∧
            (desk'.session.reporter.guard raised).report =
              (if before = [] ∧ after = [] then "" else "Traceback:\n") ++
                String.join (before ++ Reporter.quotation desk.session.path number quoted :: after) ++
                Reporter.headline desk'.session.reporter.style d ∧
            number = item.line ∧ BeginsWithLine item.source.toList quoted ∧
            (strippedLine item.source.toList (number - item.line).toNat = some quoted ↔
              ∃ line, BeginsOnFirstLine item.source.toList line)) := by
  intro opened desk
  have hlookup : lookup opened.world.frames "y" opened.session.globals = none :=
    Option.isNone_iff_eq_none.1 (by decide +kernel)
  have hfirst : runQueued .standard ⟨"true", .literal (.boolean true), 1⟩ opened =
      .ok () (((opened.working "true" 1).noting
        (.evaluated console 1 (.boolean true))).keeping (.boolean true)).resting := rfl
  have hqueue : run .standard desk = runAll .standard
      [⟨"true", .literal (.boolean true), 1⟩, ⟨" y \n", .word "y", 2⟩] opened := rfl
  have hrun : ∃ desk', run .standard desk = .error (.complaint (.ofFault (.undefined "y"))) desk' := by
    rw [hqueue, runAll_cons, Job.bind_ok hfirst, runAll_cons]
    exact ⟨_, Job.bind_error (runQueued_undefined hlookup)⟩
  obtain ⟨desk', hrun⟩ := hrun
  exact ⟨_, desk', hrun, quoted_line_is_numbered_line_iff .standard desk desk' _ hrun⟩

/-- At a console there is nothing else to quote. -/
theorem report_working {style : Style} {source : String} {line : Int} {d : Diagnostic}
    (hdesk : desk.AtConsole style) (hshown : isBlankText source.toList = false)
    (hd : Reporter.isLocated d = false) :
    (desk.working source line).session.reporter.report d =
      Reporter.quotation console line (firstLine (trim source.toList)) ++
        Reporter.headline style d := by
  have hentry := Reporter.traceEntry_of_not_blank hshown console line
  rw [Reporter.report_of_not_located hd, Reporter.traceList, hdesk.traces_working,
    List.filterMap_cons_some hentry, (hdesk.working source line).style]
  simp

/-- A program that begins below a blank line is quoted under the number of this line, on which there is
nothing. -/
theorem line_below_blank_is_quoted_as_first :
    let desk := start console true .standard (.fresh true .plain) true false .empty
    ∃ queued failed raised, add .standard "\ny" 1 desk = .ok () queued ∧
      run .standard queued = .error raised failed ∧
      (failed.session.reporter.guard raised).report =
        "  File '<in>', line 1:\n    y\nerror: ReferenceError: Undefined variable: y\n" ∧
      strippedLine "\ny".toList 0 = some [] := by
  intro desk
  have hword : Grammar.Primary ['y'] (.word "y") [] :=
    @Grammar.primary_word [] ['y'] ⟨by decide, List.all_eq_true.1 rfl, by decide⟩ rfl
  have hparse : Grammar.parse Limits.standard.depth "\ny" = .ok (.word "y") :=
    Grammar.parse_eq_ok_iff.2 ⟨⟨[], @Grammar.Expression.primary ['\n'] _ _ _ rfl hword, rfl⟩, by decide⟩
  have hlookup : lookup desk.world.frames "y" desk.session.globals = none :=
    Option.isNone_iff_eq_none.1 (by decide +kernel)
  have hfailed : ∃ queued failed, add .standard "\ny" 1 desk = .ok () queued ∧
      run .standard queued = .error (.complaint (.ofFault (.undefined "y"))) failed ∧
      failed.session.reporter = (desk.working "\ny" 1).session.reporter := by
    rw [add_eq, hparse]
    exact ⟨_, _, rfl, (run_queueing rfl _).trans (runQueued_undefined hlookup), rfl⟩
  obtain ⟨queued, failed, hadd, hrun, hreporter⟩ := hfailed
  have hdesk : desk.AtConsole .plain := atConsole_start .standard true .plain true false .empty
  have hline : firstLine (trim "\ny".toList) = ['y'] := by decide
  refine ⟨queued, failed, _, hadd, hrun, ?_, by decide⟩
  rw [hreporter, Reporter.guard, Reporter.throw_report,
    report_working hdesk (by decide) (isLocated_ofFault _), hline]
  rfl

end Session

end CallScript
