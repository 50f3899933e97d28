import CallScript.CommandLine.Log
import CallScript.Proofs.Store.Beside

/-!
# What is shown of a record

What the user is shown, and the log, come from the entries of a record one by one. So two records that
differ only in what a full log would show too come to the same.
-/

namespace CallScript.CommandLine

variable {events events' : Array Event}

theorem shownText_append (events events' : Array Event) :
    shownText (events ++ events') = shownText events ++ shownText events' := by
  rw [shownText, Array.toList_append, List.map_append, String.join_append]
  rfl

theorem logText_append (verbose : Bool) (events events' : Array Event) :
    logText verbose (events ++ events') = logText verbose events ++ logText verbose events' := by
  rw [logText, Array.toList_append, List.map_append, String.join_append]
  rfl

theorem lines_append (events events' : Array Event) :
    World.lines (events ++ events') = World.lines events ++ World.lines events' := by
  simp [World.lines, Array.filterMap_append]

theorem shownText_push_answer (text : String) :
    shownText (events.push (.answer text)) = shownText events ++ text := by
  rw [Array.push_eq_append, shownText_append]
  simp [shownText]

theorem shownText_push_report (text : String) :
    shownText (events.push (.report text)) = shownText events ++ text := by
  rw [Array.push_eq_append, shownText_append]
  simp [shownText]

theorem logText_push_answer (verbose : Bool) (text : String) :
    logText verbose (events.push (.answer text)) = logText verbose events := by
  rw [Array.push_eq_append, logText_append]
  simp [logText]

theorem logText_push_report (verbose : Bool) (text : String) :
    logText verbose (events.push (.report text)) = logText verbose events := by
  rw [Array.push_eq_append, logText_append]
  simp [logText]

def linesText (events : Array Event) : String :=
  String.join ((World.lines events).toList.map (· ++ "\n"))

/-- Of what programs record the user is shown the lines. -/
theorem shownText_of_program (h : ∀ event ∈ events, event.OfProgram) :
    shownText events = linesText events := by
  rw [shownText, linesText, World.lines, Array.toList_filterMap]
  have hlist : ∀ event ∈ events.toList, event.OfProgram := fun event hmem =>
    h event (Array.mem_toList_iff.1 hmem)
  generalize events.toList = entries at hlist
  induction entries with
  | nil => rfl
  | cons event rest ih =>
    obtain ⟨hevent, hrest⟩ := List.forall_mem_cons.1 hlist
    cases event with
    | line text =>
      rw [List.map_cons, String.join_cons, ih hrest, ← String.join_cons]
      rfl
    | notice notice =>
      rw [List.map_cons, String.join_cons, ih hrest, String.empty_append]
      rfl
    | answer text => cases hevent
    | report text => cases hevent

/-- The two records differ at most in what only a full log shows. -/
structure ShownAlike (events events' : Array Event) : Prop where
  lines : World.lines events' = World.lines events
  shown : shownText events' = shownText events
  logged : logText false events' = logText false events

namespace ShownAlike

theorem refl (events : Array Event) : ShownAlike events events :=
  ⟨rfl, rfl, rfl⟩

theorem append {more more' : Array Event} (h : ShownAlike events events')
    (hmore : ShownAlike more more') : ShownAlike (events ++ more) (events' ++ more') := by
  refine ⟨?_, ?_, ?_⟩
  · rw [lines_append, lines_append, h.lines, hmore.lines]
  · rw [shownText_append, shownText_append, h.shown, hmore.shown]
  · rw [logText_append, logText_append, h.logged, hmore.logged]

/-- A notice that only a full log shows. -/
theorem notice {notice : Notice} (h : levelOf notice = .debug) :
    ShownAlike #[] #[.notice notice] := by
  refine ⟨rfl, rfl, ?_⟩
  simp [logText, h]

end ShownAlike

end CallScript.CommandLine
