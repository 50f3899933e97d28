import CallScript.Proofs.Store.Scope
import CallScript.Proofs.Store.World
import CallScript.Proofs.Value.Alike

/-!
# Worlds side by side

Two worlds that differ only in what a matching leaves open: frames that stand for each other bind
names to values that are alike, but for hidden names, and stand in frames that stand for each other.
What is made next in the one stands for what is made next in the other, and since the two runs began,
the same has been recorded. Single changes made to both keep all of this.
-/

namespace CallScript

/-- The two frames bind the same names to values that are alike, but for hidden names. -/
structure Frame.Alike (m : Matching) (frame frame' : Frame) : Prop where
  parent : Option.Rel m.frame frame.parent frame'.parent
  bound : ∀ name, ¬ m.hidden name →
    Option.Rel (Value.Alike m) (frame.bindings.lookup name) (frame'.bindings.lookup name)

/-- An entry that programs cause: a line that one writes, or a notice. -/
def Event.OfProgram : Event → Prop
  | .line _ => True
  | .notice _ => True
  | _ => False

/-- The same was recorded in the one run and in the other, and all of it by programs. -/
def SameRecord (start start' w w' : World) : Prop :=
  ∃ added, (∀ event ∈ added, event.OfProgram) ∧ w.events = start.events ++ added ∧
    w'.events = start'.events ++ added

/-- The two worlds are alike, and the same was recorded since the two that runs began in. -/
structure Beside (m : Matching) (start start' w w' : World) : Prop where
  frames : ∀ {i i'}, m.frame i i' → Option.Rel (Frame.Alike m) w.frames[i]? w'.frames[i']?
  nextFrame : ∀ k, m.frame (w.frames.size + k) (w'.frames.size + k)
  nextObject : ∀ k, m.object (w.nextId + k) (w'.nextId + k)
  events : SameRecord start start' w w'

variable {m : Matching} {start start' w w' : World}

theorem eq_of_rel {α : Type} {R : α → α → Prop} {o o' : Option α} (h : Option.Rel R o o')
    (hR : ∀ a a', R a a' → a = a') : o = o' := by
  cases h with
  | none => rfl
  | some hab => rw [hR _ _ hab]

theorem Frame.Alike.around {frame frame' : Frame} (h : Frame.Alike m frame frame') :
    (frame.parent = none ∧ frame'.parent = none) ∨
      ∃ p p', frame.parent = some p ∧ frame'.parent = some p' ∧ m.frame p p' := by
  have hparent := h.parent
  cases hp : frame.parent <;> cases hp' : frame'.parent <;> rw [hp, hp'] at hparent
  · exact .inl ⟨rfl, rfl⟩
  · cases hparent
  · cases hparent
  · cases hparent with
    | some hpp => exact .inr ⟨_, _, rfl, rfl, hpp⟩

namespace Bindings

variable {R : Value → Value → Prop} {bindings bindings' : Bindings} {v v' : Value}

theorem rel_lookup_bind (name : String) {other : String} (hv : R v v')
    (h : Option.Rel R (bindings.lookup other) (bindings'.lookup other)) :
    Option.Rel R ((bind name v bindings).lookup other) ((bind name v' bindings').lookup other) := by
  by_cases hname : other = name
  · rw [hname, lookup_bind_self, lookup_bind_self]
    exact .some hv
  · rwa [lookup_bind_of_ne hname, lookup_bind_of_ne hname]

theorem rel_lookup_zip (params : List String) {args args' : List Value} (h : List.Forall₂ R args args')
    {bindings bindings' : Bindings}
    (hold : ∀ name, Option.Rel R (bindings.lookup name) (bindings'.lookup name)) (name : String) :
    Option.Rel R
      (((params.zip args).foldl (fun bindings pair => bind pair.1 pair.2 bindings) bindings).lookup name)
      (((params.zip args').foldl (fun bindings pair => bind pair.1 pair.2 bindings)
        bindings').lookup name) := by
  induction h generalizing params bindings bindings' with
  | nil => simpa using hold name
  | cons hv _ ih =>
    cases params with
    | nil => exact hold name
    | cons param params => exact ih params fun other => rel_lookup_bind param hv (hold other)

theorem rel_lookup_ofPairs (params : List String) {args args' : List Value}
    (h : List.Forall₂ R args args') (name : String) :
    Option.Rel R ((ofPairs (params.zip args)).lookup name) ((ofPairs (params.zip args')).lookup name) :=
  rel_lookup_zip params h (fun _ => .none) name

end Bindings

namespace Beside

/-- A name that is not hidden means the same in frames that stand for each other. -/
theorem lookup (h : Beside m start start' w w') {name : String} (shown : ¬ m.hidden name)
    {i i' : FrameId} (hi : m.frame i i') :
    Option.Rel (Value.Alike m) (lookup w.frames name i) (CallScript.lookup w'.frames name i') := by
  induction i using Nat.strongRecOn generalizing i' with
  | ind i ih =>
    have hframes := h.frames hi
    cases here : w.frames[i]? <;> cases here' : w'.frames[i']? <;> rw [here, here'] at hframes
    · rw [lookup_of_no_frame here, lookup_of_no_frame here']
      exact .none
    · cases hframes
    · cases hframes
    · next frame frame' =>
      have halike : Frame.Alike m frame frame' := by cases hframes; assumption
      have hown := halike.bound name shown
      cases own : frame.bindings.lookup name <;> cases own' : frame'.bindings.lookup name <;>
        rw [own, own'] at hown
      · -- The chain goes on with a frame that stands earlier in both worlds, or ends in both.
        rcases halike.around with ⟨hp, hp'⟩ | ⟨p, p', hp, hp', hpp⟩
        · rw [lookup_of_outermost here own (by simp [hp]),
            lookup_of_outermost here' own' (by simp [hp'])]
          exact .none
        · have horder := m.order hpp hi
          by_cases hlt : p < i
          · rw [lookup_of_outer here own hp hlt, lookup_of_outer here' own' hp' (horder.1 hlt)]
            exact ih p hlt hpp
          · rw [lookup_of_outermost here own (by simpa [hp] using hlt),
              lookup_of_outermost here' own' (by simpa [hp'] using mt horder.2 hlt)]
            exact .none
      · cases hown
      · cases hown
      · rw [lookup_of_own here own, lookup_of_own here' own']
        exact hown

theorem withEvent (h : Beside m start start' w w') {event : Event} (hevent : event.OfProgram) :
    Beside m start start' (w.withEvent event) (w'.withEvent event) := by
  obtain ⟨added, hprogram, hadded, hadded'⟩ := h.events
  refine ⟨h.frames, h.nextFrame, h.nextObject, added.push event, fun other hother => ?_, ?_, ?_⟩
  · rcases Array.mem_push.1 hother with hmem | rfl
    · exact hprogram other hmem
    · exact hevent
  · rw [World.withEvent, hadded, Array.push_append]
  · rw [World.withEvent, hadded', Array.push_append]

theorem withWarning (h : Beside m start start' w w') (forms : Registry) (name : String) :
    Beside m start start' (w.withWarning forms name) (w'.withWarning forms name) := by
  rw [World.withWarning, World.withWarning]
  split
  · exact h.withEvent trivial
  · exact h

theorem withObject (h : Beside m start start' w w') :
    Beside m start start' w.withObject w'.withObject := by
  refine ⟨h.frames, h.nextFrame, fun k => ?_, h.events⟩
  have hnext := h.nextObject (k + 1)
  rwa [Nat.add_comm k, ← Nat.add_assoc, ← Nat.add_assoc] at hnext

theorem frame_size (h : Beside m start start' w w') : m.frame w.frames.size w'.frames.size :=
  h.nextFrame 0

theorem withFrame (h : Beside m start start' w w') (params : List String) {args args' : List Value}
    (hargs : List.Forall₂ (Value.Alike m) args args') {around around' : FrameId}
    (haround : m.frame around around') :
    Beside m start start' (w.withFrame (Bindings.ofPairs (params.zip args)) around)
      (w'.withFrame (Bindings.ofPairs (params.zip args')) around') := by
  refine ⟨fun {i i'} hi => ?_, fun k => ?_, h.nextObject, h.events⟩
  · have hnew := m.frame_eq_iff hi h.frame_size
    rw [World.withFrame, World.withFrame, Array.getElem?_push, Array.getElem?_push]
    by_cases hlast : i = w.frames.size
    · rw [if_pos hlast, if_pos (hnew.1 hlast)]
      exact .some ⟨.some haround, fun name _ => Bindings.rel_lookup_ofPairs params hargs name⟩
    · rw [if_neg hlast, if_neg (mt hnew.2 hlast)]
      exact h.frames hi
  · have hnext := h.nextFrame (k + 1)
    simp only [World.withFrame, Array.size_push]
    rwa [Nat.add_comm k, ← Nat.add_assoc, ← Nat.add_assoc] at hnext

theorem withBinding (h : Beside m start start' w w') {id id' : FrameId} (hid : m.frame id id')
    (name : String) {v v' : Value} (hv : v.Alike m v') :
    Beside m start start' (w.withBinding id name v) (w'.withBinding id' name v') := by
  refine ⟨fun {i i'} hi => ?_, fun k => ?_, h.nextObject, h.events⟩
  · have hsame := m.frame_eq_iff hi hid
    have hframes := h.frames hi
    by_cases hown : i = id
    · have hown' := hsame.1 hown
      subst hown hown'
      rw [World.frames_withBinding_self, World.frames_withBinding_self]
      generalize w.frames[i]? = frame at hframes
      generalize w'.frames[i']? = frame' at hframes
      cases hframes with
      | none => exact .none
      | some halike =>
        exact .some ⟨halike.parent, fun other shown =>
          Bindings.rel_lookup_bind name hv (halike.bound other shown)⟩
    · rw [World.frames_withBinding_of_ne hown, World.frames_withBinding_of_ne (mt hsame.2 hown)]
      exact hframes
  · have hnext := h.nextFrame k
    simpa only [World.withBinding, Array.size_modify] using hnext

end Beside

end CallScript
