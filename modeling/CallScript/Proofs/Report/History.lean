import CallScript.Proofs.Report.Excerpt
import CallScript.Proofs.Report.Traces
import CallScript.Proofs.Store.Bindings
import CallScript.Proofs.Text.Run
import Mathlib.Data.List.Forall2
import Mathlib.Data.List.Induction

/-!
# Reports after any history

Whatever was done with a reporter before, it can report every error. It knows the files that it was told
of, in the order in which they were first named, and each of them is at the text of which it was told
last, if nothing has been said of the file since and no report has cleared it. A report shows the place of
the error in its source, or it lists the files that are at a text with something to show; what it shows of
such a text is the first line of it, and there always is one.
-/

namespace CallScript

namespace Text

/-- Without the blanks around it the text begins with this line, which begins with a character that is no
blank and goes on to the first line end, or to the end if there is none. -/
inductive BeginsWithLine (cs : List Char) : List Char → Prop where
  | mk {front c more rest behind} (whole : cs = front ++ (c :: more ++ rest) ++ behind)
      (blankFront : isBlankText front = true) (blankBehind : isBlankText behind = true)
      (first : isBlank c = false) (last : (c :: more ++ rest).getLast?.any isBlank = false)
      (single : ∀ d ∈ c :: more, isLineEnd d = false)
      (ends : rest = [] ∨ ∃ d after, rest = d :: after ∧ isLineEnd d = true) :
      BeginsWithLine cs (c :: more)

/-- So a text that was trimmed does not begin with a line end. -/
theorem isBlank_of_isLineEnd {c : Char} (h : isLineEnd c = true) : isBlank c = true := by
  simp only [isLineEnd, isBlank, Bool.or_eq_true, Bool.and_eq_true, decide_eq_true_eq,
    beq_iff_eq] at h ⊢
  omega

theorem trim_eq_nil_iff {cs : List Char} : trim cs = [] ↔ isBlankText cs = true := by
  have htrim : trim cs = [] ↔ isBlankText (skipBlanks cs) = true := by
    rw [trim, trimEnd, List.reverse_eq_nil_iff, ← skipBlanks, skipBlanks_eq_nil_iff, isBlankText,
      List.all_reverse, isBlankText]
  obtain ⟨blanks, hblanks, hcs⟩ := exists_blanks cs
  rw [htrim]
  conv => rhs; rw [hcs, isBlankText_append, hblanks, Bool.true_and]

theorem isEmpty_trim {cs : List Char} (h : isBlankText cs = false) : (trim cs).isEmpty = false := by
  rw [List.isEmpty_eq_false_iff, Ne, trim_eq_nil_iff, h]
  exact Bool.false_ne_true

theorem beginsWithLine_firstLine {cs : List Char} (h : isBlankText cs = false) :
    BeginsWithLine cs (firstLine (trim cs)) := by
  obtain ⟨front, hfront, hcs⟩ := exists_blanks cs
  obtain ⟨behind, hbehind, hkept⟩ := exists_blanks_behind (skipBlanks cs)
  have hne : trim cs ≠ [] := List.isEmpty_eq_false_iff.1 (isEmpty_trim h)
  have hlast : (trim cs).getLast?.any isBlank = false := by
    rw [trim, trimEnd, List.getLast?_reverse]
    exact any_head?_dropWhile isBlank _
  rw [← trim] at hkept
  obtain ⟨c, tail, htrim⟩ := List.exists_cons_of_ne_nil hne
  have hfirst : isBlank c = false := by
    rw [htrim, List.cons_append] at hkept
    exact isBlank_of_skipBlanks_eq_cons hkept
  have hstart : isLineEnd c = false :=
    Bool.eq_false_iff.2 fun hend => Bool.eq_false_iff.1 hfirst (isBlank_of_isLineEnd hend)
  have hline : firstLine (trim cs) = c :: tail.takeWhile (!isLineEnd ·) := by
    rw [htrim, firstLine, List.takeWhile_cons_of_pos (by simp [hstart])]
  have hsplit : c :: tail.takeWhile (!isLineEnd ·) ++ tail.dropWhile (!isLineEnd ·) = trim cs := by
    rw [htrim, List.cons_append, List.takeWhile_append_dropWhile]
  rw [hline]
  refine .mk ?_ hfront hbehind hfirst (hsplit ▸ hlast) (fun d hd => ?_) ?_
  · rw [hsplit, List.append_assoc, ← hkept, ← hcs]
  · rw [← hline] at hd
    simpa using of_mem_takeWhile hd
  · cases hrest : tail.dropWhile (!isLineEnd ·) with
    | nil => exact .inl rfl
    | cons d after =>
      have hhead := any_head?_dropWhile (!isLineEnd ·) tail
      rw [hrest] at hhead
      exact .inr ⟨d, after, rfl, by simpa using hhead⟩

end Text

namespace Reporter

/-- What is done with a reporter. -/
inductive Act where
  | file (path : String)
  | line (path text : String) (number : Option Int)
  | remove (path : String)
  | throw (d : Diagnostic)

namespace Act

def apply : Act → Reporter → Reporter
  | file path, r => r.leave path
  | line path text number, r => r.enter path text number
  | remove path, r => r.leave path
  | throw d, r => (r.throw d).reporter

def path? : Act → Option String
  | file path | line path _ _ | remove path => some path
  | throw _ => none

/-- The text that a file is at after the act and the number of this text, if the act decides on it. A report
clears all files, unless errors are fatal. -/
def tells (fatal : Bool) (path : String) : Act → Option (Option String × Option Int)
  | file named | remove named => if path = named then some (none, none) else none
  | line named text number => if path = named then some (some text, number) else none
  | throw _ => if fatal then none else some (none, none)

end Act

variable {fatal : Bool} {style : Text.Style} {history : List Act} {act : Act} {path : String}

/-- The reporter after a history that began with a fresh one. -/
def after (fatal : Bool) (style : Text.Style) (history : List Act) : Reporter :=
  history.foldl (fun r act => act.apply r) (fresh fatal style)

/-- The files that a history names, each once, in the order in which they are first named. -/
def named (history : List Act) : List String :=
  (history.filterMap Act.path?).eraseDups

/-- The text that a file is at after a history, and the number of this text. -/
def standing (fatal : Bool) (history : List Act) (path : String) : Option String × Option Int :=
  (history.reverse.findSome? (Act.tells fatal path)).getD (none, none)

def standingTrace (fatal : Bool) (history : List Act) (path : String) : Trace :=
  ⟨path, (standing fatal history path).1, (standing fatal history path).2⟩

theorem after_concat (history : List Act) (act : Act) :
    after fatal style (history ++ [act]) = act.apply (after fatal style history) := by
  rw [after, List.foldl_append]
  rfl

theorem named_concat (history : List Act) (act : Act) :
    named (history ++ [act]) = match act.path? with
      | none => named history
      | some path => if path ∈ named history then named history else named history ++ [path] := by
  rw [named, List.filterMap_append]
  cases hpath : act.path? with
  | none => simp [hpath, named]
  | some path =>
    rw [List.filterMap_cons_some hpath, List.filterMap_nil]
    exact Bindings.eraseDups_append_singleton _ path

theorem standing_concat (history : List Act) (act : Act) (path : String) :
    standing fatal (history ++ [act]) path =
      (act.tells fatal path).getD (standing fatal history path) := by
  rw [standing, List.reverse_append, List.reverse_singleton, List.singleton_append,
    List.findSome?_cons]
  cases act.tells fatal path <;> rfl

theorem nodup_named (history : List Act) : (named history).Nodup :=
  Bindings.nodup_eraseDups _

/-- Putting in the trace of a file changes what the file is at, and puts the file last if it is new. -/
theorem setTrace_map {f : String → Trace} (hf : ∀ path, (f path).path = path) (trace : Trace)
    (paths : List String) (hnodup : paths.Nodup) :
    setTrace trace (paths.map f) =
      (if trace.path ∈ paths then paths else paths ++ [trace.path]).map
        fun path => if path = trace.path then trace else f path := by
  induction paths with
  | nil => simp [setTrace]
  | cons path rest ih =>
    obtain ⟨hnew, hnodup⟩ := List.nodup_cons.1 hnodup
    rw [List.map_cons, setTrace, hf]
    by_cases hpath : path = trace.path
    · subst hpath
      have hrest : rest.map (fun path => if path = trace.path then trace else f path) = rest.map f := by
        refine List.map_congr_left fun other hother => if_neg ?_
        rintro rfl
        exact hnew hother
      rw [if_pos rfl, if_pos List.mem_cons_self, List.map_cons, if_pos rfl, hrest]
    · rw [if_neg hpath, ih hnodup]
      have hmem : trace.path ∈ path :: rest ↔ trace.path ∈ rest := by
        rw [List.mem_cons, or_iff_right (Ne.symm hpath)]
      by_cases hrest : trace.path ∈ rest
      · rw [if_pos hrest, if_pos (hmem.2 hrest), List.map_cons, if_neg hpath]
      · rw [if_neg hrest, if_neg (mt hmem.1 hrest), List.cons_append, List.map_cons, if_neg hpath]

/-- An act that tells of one file. -/
theorem enter_standing {text : Option String} {line : Option Int} (hact : act.path? = some path)
    (htells : ∀ other, act.tells fatal other = if other = path then some (text, line) else none) :
    enter path text line ⟨fatal, (named history).map (standingTrace fatal history), style⟩ =
      ⟨fatal, (named (history ++ [act])).map (standingTrace fatal (history ++ [act])), style⟩ := by
  have hset := @setTrace_map (standingTrace fatal history) (fun _ => rfl) ⟨path, text, line⟩ _
    (nodup_named history)
  rw [enter, hset, named_concat, hact]
  congr 1
  refine List.map_congr_left fun other _ => ?_
  rw [standingTrace, standingTrace, standing_concat, htells]
  by_cases hother : other = path
  · rw [if_pos hother, if_pos hother, hother]
    rfl
  · rw [if_neg hother, if_neg hother]
    rfl

theorem after_eq (fatal : Bool) (style : Text.Style) (history : List Act) :
    after fatal style history =
      ⟨fatal, (named history).map (standingTrace fatal history), style⟩ := by
  induction history using List.reverseRecOn with
  | nil => rfl
  | append_singleton history act ih =>
    rw [after_concat, ih]
    cases act with
    | file path => exact enter_standing rfl fun _ => rfl
    | line path text number => exact enter_standing rfl fun _ => rfl
    | remove path => exact enter_standing rfl fun _ => rfl
    | throw d =>
      have hnamed : named (history ++ [.throw d]) = named history := named_concat history (.throw d)
      rw [hnamed, Act.apply, Reporter.throw]
      cases fatal with
      | true =>
        have hstanding : standingTrace true (history ++ [.throw d]) = standingTrace true history := by
          funext path
          rw [standingTrace, standing_concat]
          rfl
        rw [hstanding]
        rfl
      | false =>
        have hstanding : standingTrace false (history ++ [.throw d]) = fun path => ⟨path, none, none⟩ := by
          funext path
          rw [standingTrace, standing_concat]
          rfl
        rw [hstanding, leaveAll, List.map_map]
        rfl

/-- There is something to show of the text. -/
def isShown (trace : Trace) : Bool :=
  trace.text.any fun text => !Text.isBlankText text.toList

/-- The entry of a file in a report, with the number of its text and the first line of it. -/
inductive Lists (trace : Trace) : String → Prop where
  | mk {text line} (shown : trace.text = some text) (begins : Text.BeginsWithLine text.toList line) :
      Lists trace ("  File '" ++ trace.path ++ "', line " ++ lineText trace.line ++ ":\n    " ++
        String.ofList line ++ "\n")

theorem traceEntry_of_shown {trace : Trace} (h : isShown trace = true) :
    ∃ entry, traceEntry trace = some entry ∧ Lists trace entry := by
  obtain ⟨text, htext, hshown⟩ := (Option.any_eq_true ..).1 h
  have hblank : Text.isBlankText text.toList = false := by simpa using hshown
  refine ⟨_, ?_, .mk htext (Text.beginsWithLine_firstLine hblank)⟩
  simp only [traceEntry, htext, Text.isEmpty_trim hblank, Bool.false_eq_true, if_false]

theorem traceEntry_of_not_shown {trace : Trace} (h : isShown trace = false) :
    traceEntry trace = none := by
  cases htext : trace.text with
  | none => simp only [traceEntry, htext]
  | some text =>
    have hblank : Text.isBlankText text.toList = true := by simpa [isShown, htext] using h
    have hnone : (Text.trim text.toList).isEmpty = true := by
      rw [List.isEmpty_iff, Text.trim_eq_nil_iff, hblank]
    simp only [traceEntry, htext, hnone, if_true]

theorem lists_entries (traces : List Trace) :
    List.Forall₂ Lists (traces.filter isShown) (traces.filterMap traceEntry) := by
  induction traces with
  | nil => exact .nil
  | cons trace rest ih =>
    cases h : isShown trace with
    | true =>
      obtain ⟨entry, hentry, hlists⟩ := traceEntry_of_shown h
      rw [List.filter_cons_of_pos h, List.filterMap_cons_some hentry]
      exact .cons hlists ih
    | false =>
      rw [List.filter_cons_of_neg (by simp [h]), List.filterMap_cons_none (traceEntry_of_not_shown h)]
      exact ih

/-- The line of a report that tells the error. -/
def headline (style : Text.Style) (d : Diagnostic) : String :=
  (if d.internal then style.alarm "[internal] " else "") ++ style.alarm "error: " ++ d.kind.name ++
    ": " ++ d.message ++ "\n"

theorem report_of_not_located {d : Diagnostic} (h : isLocated d = false) (r : Reporter) :
    r.report d = r.traceList ++ headline r.style d := by
  rw [report, h, if_neg Bool.false_ne_true, if_neg Bool.false_ne_true, String.append_empty]
  simp only [headline, String.append_assoc]

/-- The file that a report puts an error in, and the number of the text that the file is at. -/
def firstFile (fatal : Bool) (history : List Act) : String × Option Int :=
  match named history with
  | [] => ("<egg>", none)
  | path :: _ => (path, (standing fatal history path).2)

/-- What is reported of an error after a history: the place of the error and an excerpt of its source, if
it has a source that may be shown and the interpreter is not to blame, and else a list of the files that
are at a text with something to show. The place is that of the first offset of the error, if this is none
of those that count from the end, and the excerpt shows the line there with the error marked in it. -/
inductive Reports (fatal : Bool) (style : Text.Style) (history : List Act) (d : Diagnostic) :
    String → Prop where
  | located (source : d.source ≠ "") (pointed : d.pointed = true) (language : d.internal = false)
      (faithful : ∀ start : Nat, d.start = start →
        Diagnostic.TellsPlace d.source.toList start d.locate ∧
          ∃ marks, d.ShowsMark d.locate.line d.locate.column marks) :
      Reports fatal style history d
        (style.bold ((firstFile fatal history).1 ++ ":" ++
            toString (lineBelow (firstFile fatal history).2 d.locate.lineOffset) ++ ":" ++
            toString (d.locate.column + 1) ++ ": ") ++
          headline style d ++ d.excerpt style ++ "\n")
  | listed {entries} (unlocated : d.source = "" ∨ d.pointed = false ∨ d.internal = true)
      (each : List.Forall₂ (fun path => Lists (standingTrace fatal history path))
        ((named history).filter fun path => isShown (standingTrace fatal history path)) entries) :
      Reports fatal style history d
        ((if 1 < entries.length then "Traceback:\n" else "") ++ String.join entries ++
          headline style d)

theorem isLocated_eq_true_iff {d : Diagnostic} :
    isLocated d = true ↔ d.source ≠ "" ∧ d.pointed = true ∧ d.internal = false := by
  simp only [isLocated, Bool.and_eq_true, bne_iff_ne, Bool.not_eq_true']
  tauto

theorem placeText_after (fatal : Bool) (style : Text.Style) (history : List Act) (d : Diagnostic) :
    (after fatal style history).placeText d =
      style.bold ((firstFile fatal history).1 ++ ":" ++
        toString (lineBelow (firstFile fatal history).2 d.locate.lineOffset) ++ ":" ++
        toString (d.locate.column + 1) ++ ": ") := by
  rw [after_eq, placeText, firstFile]
  cases named history <;> rfl

/-- Entries for the files at a text with something to show, in their order. -/
theorem lists_after (fatal : Bool) (style : Text.Style) (history : List Act) :
    List.Forall₂ (fun path => Lists (standingTrace fatal history path))
      ((named history).filter fun path => isShown (standingTrace fatal history path))
      ((after fatal style history).traces.filterMap traceEntry) := by
  have hlists := lists_entries (after fatal style history).traces
  rw [after_eq] at hlists ⊢
  rwa [List.filter_map, List.forall₂_map_left_iff] at hlists

theorem reports_report (fatal : Bool) (style : Text.Style) (history : List Act) (d : Diagnostic) :
    Reports fatal style history d ((after fatal style history).report d) := by
  have hstyle : (after fatal style history).style = style := by rw [after_eq]
  by_cases hlocated : isLocated d = true
  · obtain ⟨source, pointed, language⟩ := isLocated_eq_true_iff.1 hlocated
    have hreports := @Reports.located fatal style history d source pointed language
      fun _ hstart => ⟨Diagnostic.locate_tellsPlace hstart, Diagnostic.exists_showsMark hstart⟩
    rw [report, hstyle, if_pos hlocated, if_pos hlocated, placeText_after]
    simpa only [headline, String.append_assoc] using hreports
  · have hunlocated : d.source = "" ∨ d.pointed = false ∨ d.internal = true := by
      rw [isLocated_eq_true_iff] at hlocated
      cases hpointed : d.pointed <;> cases hinternal : d.internal <;> simp_all
    rw [report_of_not_located (Bool.eq_false_iff.2 hlocated), hstyle, traceList]
    exact .listed hunlocated (lists_after fatal style history)

/-- Reporting an error never fails and leaves nothing behind. After any history a reporter knows the files
in the order in which they were first named, each at the text of which it was told last. If errors are not
fatal, the report of any error goes no further, and the same files are known, with no text of any of them
being worked on. If they are fatal, there is the same report, the process is to end with status one, and
the reporter knows what it knew. -/
theorem reporting_never_fails (fatal : Bool) (style : Text.Style) (history : List Act)
    (d : Diagnostic) :
    after fatal style history =
        ⟨fatal, (named history).map (standingTrace fatal history), style⟩ ∧
      ∃ report, Reports fatal style history d report ∧
        Reporter.throw { after fatal style history with fatal := false } d =
          ⟨report, ⟨false, (named history).map fun path => ⟨path, none, none⟩, style⟩, .suppressed⟩ ∧
        Reporter.throw { after fatal style history with fatal := true } d =
          ⟨report, { after fatal style history with fatal := true }, .raised (.exit (some 1))⟩ := by
  have hafter := after_eq fatal style history
  refine ⟨hafter, (after fatal style history).report d, reports_report fatal style history d, ?_, rfl⟩
  have hthrow : Reporter.throw { after fatal style history with fatal := false } d =
      ⟨(after fatal style history).report d,
        leaveAll { after fatal style history with fatal := false }, .suppressed⟩ := rfl
  rw [hthrow, leaveAll]
  congr 1
  rw [hafter, List.map_map]
  rfl

end Reporter

end CallScript
