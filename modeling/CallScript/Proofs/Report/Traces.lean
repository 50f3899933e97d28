import CallScript.Report.Reporter

/-!
# What a reporter knows

A reporter has one trace for each file. Putting in a trace of a file replaces the one that was there, so
what a file was at before does not matter, and no other file is touched.
-/

namespace CallScript.Reporter

variable {path : String} {text : Option String} {line : Option Int} {r : Reporter}

theorem setTrace_setTrace {trace trace' : Trace} (h : trace.path = trace'.path)
    (traces : List Trace) : setTrace trace' (setTrace trace traces) = setTrace trace' traces := by
  fun_induction setTrace trace traces with
  | case1 => simp only [setTrace, if_pos h]
  | case2 known rest hknown => rw [setTrace, if_pos h, setTrace, if_pos (hknown.trans h)]
  | case3 known rest hknown ih => rw [setTrace, if_neg (h ▸ hknown), ih, setTrace, if_neg (h ▸ hknown)]

theorem mem_setTrace {trace other : Trace} {traces : List Trace}
    (h : other ∈ setTrace trace traces) : other = trace ∨ other ∈ traces := by
  fun_induction setTrace trace traces with
  | case1 => exact .inl (List.mem_singleton.1 h)
  | case2 known rest hknown => exact (List.mem_cons.1 h).imp_right (List.mem_cons_of_mem _)
  | case3 known rest hknown ih =>
    rcases List.mem_cons.1 h with rfl | hrest
    · exact .inr List.mem_cons_self
    · exact (ih hrest).imp_right (List.mem_cons_of_mem _)

theorem find?_setTrace (trace : Trace) (traces : List Trace) :
    (setTrace trace traces).find? (·.path = trace.path) = some trace := by
  fun_induction setTrace trace traces with
  | case1 => simp
  | case2 known rest hknown => simp
  | case3 known rest hknown ih => simp [hknown, ih]

theorem enter_enter (text' : Option String) (line' : Option Int) :
    (r.enter path text line).enter path text' line' = r.enter path text' line' := by
  have htraces := @setTrace_setTrace ⟨path, text, line⟩ ⟨path, text', line'⟩ rfl r.traces
  simp only [enter, htraces]

theorem leave_enter : (r.enter path text line).leave path = r.leave path :=
  enter_enter none none

def AtRest (r : Reporter) : Prop :=
  ∀ trace ∈ r.traces, trace.text = none ∧ trace.line = none

theorem atRest_fresh (fatal : Bool) (style : Text.Style) : (fresh fatal style).AtRest := by
  simp [AtRest, fresh]

theorem atRest_leaveAll (r : Reporter) : r.leaveAll.AtRest := by
  simp [AtRest, leaveAll]

theorem AtRest.leave (h : r.AtRest) (path : String) : (r.leave path).AtRest := by
  intro trace htrace
  rcases mem_setTrace htrace with rfl | hmem
  · exact ⟨rfl, rfl⟩
  · exact h trace hmem

end CallScript.Reporter
