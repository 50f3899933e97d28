import CallScript.Proofs.Store.Maintains
import CallScript.Proofs.Store.World

/-!
# Writes to frames

What may have happened to the frames of a world. Frames are never taken away; a computation may have
written to no frame that there was before, or to a single one, and then only certain names. A name
that a frame binds stays bound, and a frame stays inside the one it was made in.
-/

namespace CallScript

variable {frame : FrameId} {may may' : String → Prop} {w w' : World}

/-- Every frame that there was is as it was. -/
structure Extends (w w' : World) : Prop where
  size_le : w.frames.size ≤ w'.frames.size
  unchanged : ∀ id, id < w.frames.size → w'.frames[id]? = w.frames[id]?

/-- A frame after writes to names that may be written to. -/
structure Rebinds (may : String → Prop) (before after : Frame) : Prop where
  parent : after.parent = before.parent
  bound : ∀ name, (before.bindings.lookup name).isSome → (after.bindings.lookup name).isSome
  changed : ∀ name, after.bindings.lookup name ≠ before.bindings.lookup name → may name

/-- Every frame that there was is as it was, but for one that may have been written to. -/
structure OnlyWrites (frame : FrameId) (may : String → Prop) (w w' : World) : Prop where
  size_le : w.frames.size ≤ w'.frames.size
  others : ∀ id, id < w.frames.size → id ≠ frame → w'.frames[id]? = w.frames[id]?
  own : ∀ before, w.frames[frame]? = some before →
    ∃ after, w'.frames[frame]? = some after ∧ Rebinds may before after

theorem Rebinds.refl (may : String → Prop) (frame : Frame) : Rebinds may frame frame :=
  ⟨rfl, fun _ h => h, fun _ h => absurd rfl h⟩

theorem Rebinds.trans {first second third : Frame} (h : Rebinds may first second)
    (h' : Rebinds may second third) : Rebinds may first third := by
  refine ⟨h'.parent.trans h.parent, fun name hname => h'.bound name (h.bound name hname), ?_⟩
  intro name hname
  by_cases hsecond : second.bindings.lookup name = first.bindings.lookup name
  · rw [← hsecond] at hname
    exact h'.changed name hname
  · exact h.changed name hsecond

theorem Rebinds.mono {before after : Frame} (h : Rebinds may before after)
    (hmay : ∀ name, may name → may' name) : Rebinds may' before after :=
  ⟨h.parent, h.bound, fun name hname => hmay name (h.changed name hname)⟩

theorem rebinds_bind (name : String) (value : Value) (frame : Frame) :
    Rebinds (· = name) frame
      { frame with bindings := Bindings.bind name value frame.bindings } := by
  refine ⟨rfl, fun other hother => ?_, fun other hother => ?_⟩
  · by_cases h : other = name
    · rw [h, Bindings.lookup_bind_self]
      rfl
    · rwa [Bindings.lookup_bind_of_ne h]
  · by_cases h : other = name
    · exact h
    · exact absurd (Bindings.lookup_bind_of_ne h _ _) hother

theorem lasting_extends : Lasting Extends := by
  constructor
  · intro w
    exact ⟨Nat.le_refl _, fun _ _ => rfl⟩
  · intro first second third h h'
    refine ⟨Nat.le_trans h.size_le h'.size_le, fun id hid => ?_⟩
    rw [h'.unchanged id (Nat.lt_of_lt_of_le hid h.size_le), h.unchanged id hid]

theorem lasting_onlyWrites (frame : FrameId) (may : String → Prop) :
    Lasting (OnlyWrites frame may) := by
  constructor
  · intro w
    exact ⟨Nat.le_refl _, fun _ _ _ => rfl, fun before h => ⟨before, h, .refl may before⟩⟩
  · intro first second third h h'
    refine ⟨Nat.le_trans h.size_le h'.size_le, fun id hid hne => ?_, fun before hbefore => ?_⟩
    · rw [h'.others id (Nat.lt_of_lt_of_le hid h.size_le) hne, h.others id hid hne]
    · obtain ⟨between, hbetween, hfirst⟩ := h.own before hbefore
      obtain ⟨after, hafter, hsecond⟩ := h'.own between hbetween
      exact ⟨after, hafter, hfirst.trans hsecond⟩

theorem OnlyWrites.mono (h : OnlyWrites frame may w w') (hmay : ∀ name, may name → may' name) :
    OnlyWrites frame may' w w' := by
  refine ⟨h.size_le, h.others, fun before hbefore => ?_⟩
  obtain ⟨after, hafter, hrebinds⟩ := h.own before hbefore
  exact ⟨after, hafter, hrebinds.mono hmay⟩

theorem extends_of_frames_eq (h : w'.frames = w.frames) : Extends w w' :=
  ⟨Nat.le_of_eq (by rw [h]), fun id _ => by rw [h]⟩

/-- A lasting relation between worlds that neither a new object nor a new entry in the record can
break. -/
structure Cumulative (R : World → World → Prop) : Prop extends Lasting R where
  object : ∀ w : World, R w w.withObject
  event : ∀ (w : World) (event : Event), R w (w.withEvent event)

/-- A lasting relation between worlds that nothing but a change of frames can break. -/
structure OnFrames (R : World → World → Prop) : Prop extends Lasting R where
  same : ∀ {w w' : World}, w'.frames = w.frames → R w w'

theorem OnFrames.cumulative {R : World → World → Prop} (h : OnFrames R) : Cumulative R :=
  ⟨h.toLasting, fun _ => h.same rfl, fun _ _ => h.same rfl⟩

theorem onFrames_extends : OnFrames Extends :=
  ⟨lasting_extends, extends_of_frames_eq⟩

theorem Extends.onlyWrites (h : Extends w w') (frame : FrameId) (may : String → Prop) :
    OnlyWrites frame may w w' := by
  refine ⟨h.size_le, fun id hid _ => h.unchanged id hid, fun before hbefore => ?_⟩
  obtain ⟨hid, -⟩ := Array.getElem?_eq_some_iff.1 hbefore
  exact ⟨before, (h.unchanged frame hid).trans hbefore, .refl may before⟩

theorem onFrames_onlyWrites (frame : FrameId) (may : String → Prop) :
    OnFrames (OnlyWrites frame may) :=
  ⟨lasting_onlyWrites frame may, fun h => (extends_of_frames_eq h).onlyWrites frame may⟩

theorem extends_withFrame (bindings : Bindings) (around : FrameId) (w : World) :
    Extends w (w.withFrame bindings around) := by
  refine ⟨?_, fun id hid => World.frames_withFrame_of_lt hid⟩
  simp [World.withFrame]

/-- Writes to a frame that was not there before are no writes to those that were. -/
theorem OnlyWrites.extends_of_new (h : OnlyWrites frame may w w') {start : World}
    (hstart : Extends start w) (hnew : start.frames.size ≤ frame) : Extends start w' := by
  refine ⟨Nat.le_trans hstart.size_le h.size_le, fun id hid => ?_⟩
  have hne : id ≠ frame := Nat.ne_of_lt (Nat.lt_of_lt_of_le hid hnew)
  rw [h.others id (Nat.lt_of_lt_of_le hid hstart.size_le) hne, hstart.unchanged id hid]

theorem onlyWrites_withBinding (frame : FrameId) (name : String) (value : Value) (w : World) :
    OnlyWrites frame (· = name) w (w.withBinding frame name value) := by
  refine ⟨?_, fun id _ hne => World.frames_withBinding_of_ne hne _ _ _, fun before hbefore => ?_⟩
  · simp [World.withBinding]
  · refine ⟨_, ?_, rebinds_bind name value before⟩
    rw [World.frames_withBinding_self, hbefore]
    rfl

end CallScript
