import CallScript.Proofs.CommandLine.Log
import CallScript.Proofs.Eval.Record

/-!
# Worlds that differ in the log

Two worlds in which every frame binds the same names to the same values, and in whose records programs
wrote the same lines and caused the same warnings. The records may differ in the other notices for the
log. An evaluation comes to the same in both, and leaves two such worlds.
-/

namespace CallScript

open World

theorem World.warnings_append (events events' : Array Event) :
    warnings (events ++ events') = warnings events ++ warnings events' := by
  simp [warnings, Array.filterMap_append]

/-- The two worlds differ at most in notices for the log. -/
structure SameButLog (w w' : World) : Prop where
  bindings : ∀ name id, ownBinding w'.frames name id = ownBinding w.frames name id
  parents : ∀ id : FrameId, w'.frames[id]?.map Frame.parent = w.frames[id]?.map Frame.parent
  nextId : w'.nextId = w.nextId
  lines : lines w'.events = lines w.events
  warnings : warnings w'.events = warnings w.events

variable {w w' w'' : World}

namespace SameButLog

theorem refl (w : World) : SameButLog w w :=
  ⟨fun _ _ => rfl, fun _ => rfl, rfl, rfl, rfl⟩

theorem symm (h : SameButLog w w') : SameButLog w' w :=
  ⟨fun name id => (h.bindings name id).symm, fun id => (h.parents id).symm, h.nextId.symm,
    h.lines.symm, h.warnings.symm⟩

theorem trans (h : SameButLog w w') (h' : SameButLog w' w'') : SameButLog w w'' :=
  ⟨fun name id => (h'.bindings name id).trans (h.bindings name id),
    fun id => (h'.parents id).trans (h.parents id), h'.nextId.trans h.nextId, h'.lines.trans h.lines,
    h'.warnings.trans h.warnings⟩

theorem withEvent (w : World) (notice : Notice) (h : ∀ name, notice ≠ .shadowsForm name) :
    SameButLog w (w.withEvent (.notice notice)) := by
  refine ⟨fun _ _ => rfl, fun _ => rfl, rfl, ?_, ?_⟩
  · simp [World.withEvent, World.lines]
  · cases notice with
    | shadowsForm name => exact absurd rfl (h name)
    | _ => simp [World.withEvent, World.warnings]

theorem size_eq (h : SameButLog w w') : w'.frames.size = w.frames.size := by
  have hlt : ∀ id, id < w'.frames.size ↔ id < w.frames.size := by
    intro id
    have hid := congrArg Option.isSome (h.parents id)
    rw [Option.isSome_map, Option.isSome_map] at hid
    simpa using congrArg (· = true) hid
  have := hlt w.frames.size
  have := hlt w'.frames.size
  omega

theorem beside (h : SameButLog w w') : Beside .identity w w' w w' := by
  refine ⟨?_, fun k => ?_, fun k => ?_, #[], by simp, by rw [Array.append_empty],
    by rw [Array.append_empty]⟩
  · rintro i _ rfl
    have hparent := h.parents i
    have hbound := fun name => h.bindings name i
    simp only [ownBinding] at hbound
    cases here : w.frames[i]? <;> cases here' : w'.frames[i]? <;>
      simp only [here, here', Option.map_none, Option.map_some, reduceCtorEq, Option.some.injEq,
        Option.bind_some] at hparent hbound
    · exact .none
    · refine .some ⟨?_, fun name _ => ?_⟩
      · rw [hparent]
        exact rel_self (fun _ => rfl) _
      · rw [hbound]
        exact rel_self .identity _
  · show w.frames.size + k = w'.frames.size + k
    rw [h.size_eq]
  · show w.nextId + k = w'.nextId + k
    rw [h.nextId]

theorem of_beside {start start' : World} (hstart : SameButLog start start')
    (h : Beside .identity start start' w w') : SameButLog w w' := by
  have hframes : ∀ id : FrameId, (∀ name, ownBinding w'.frames name id = ownBinding w.frames name id) ∧
      w'.frames[id]?.map Frame.parent = w.frames[id]?.map Frame.parent := by
    intro id
    have hid : Option.Rel (Frame.Alike .identity) w.frames[id]? w'.frames[id]? := h.frames rfl
    simp only [ownBinding]
    generalize w.frames[id]? = frame at hid
    generalize w'.frames[id]? = frame' at hid
    cases hid with
    | none => exact ⟨fun _ => rfl, rfl⟩
    | some halike =>
      refine ⟨fun name => ?_, ?_⟩
      · exact (eq_of_rel (halike.bound name not_false) fun _ _ hv => hv.eq_of_identity).symm
      · exact congrArg some (eq_of_rel halike.parent fun _ _ h => h).symm
  obtain ⟨added, -, hadded, hadded'⟩ := h.events
  refine ⟨fun name id => (hframes id).1 name, fun id => (hframes id).2, (h.nextObject 0).symm, ?_, ?_⟩
  · rw [hadded, hadded', CommandLine.lines_append, CommandLine.lines_append, hstart.lines]
  · rw [hadded, hadded', warnings_append, warnings_append, hstart.warnings]

end SameButLog

/-- An evaluation comes to the same in worlds that differ in the log only. -/
theorem eval_sameButLog (rounds depth : Nat) (forms : Registry) (frame : FrameId) (e : Expr)
    (h : SameButLog w w') : EndAlike SameButLog Eq (eval rounds depth forms frame e w)
      (eval rounds depth forms frame e w') := by
  have hkept : e.Kept .identity forms := ⟨Expr.neverReads_of_none forms e, fun v _ => .identity v⟩
  have hruns := @evaluatesAlongside .identity w w' rounds depth forms frame frame e rfl hkept w w'
    h.beside
  exact hruns.mono (fun hafter => .of_beside h hafter) fun _ _ hv => hv.eq_of_identity

end CallScript
