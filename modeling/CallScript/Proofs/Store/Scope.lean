import CallScript.Store.Frame

/-!
# What names mean

A name means what the frame itself binds it to, or else what it means in the frame around it. Looking
a name up on the chain of a frame finds exactly this meaning.
-/

namespace CallScript

variable {frames : Array Frame} {name : String} {id : FrameId} {frame : Frame} {v : Value}

/-- The meaning of a name in a frame. The frame around another one stands at an earlier place. -/
inductive Means (frames : Array Frame) (name : String) : FrameId → Value → Prop where
  | own {id : FrameId} {frame : Frame} {v : Value} (here : frames[id]? = some frame)
      (bound : frame.bindings.lookup name = some v) : Means frames name id v
  | outer {id around : FrameId} {frame : Frame} {v : Value} (here : frames[id]? = some frame)
      (unbound : frame.bindings.lookup name = none) (inside : frame.parent = some around)
      (earlier : around < id) (there : Means frames name around v) : Means frames name id v

theorem lookup_of_no_frame (h : frames[id]? = none) : lookup frames name id = none := by
  rw [lookup, chain, h]
  rfl

theorem lookup_of_own (here : frames[id]? = some frame) (bound : frame.bindings.lookup name = some v) :
    lookup frames name id = some v := by
  rw [lookup, chain, here]
  simp only [List.findSome?_cons, ownBinding, here, Option.bind_some, bound]

theorem lookup_of_outer {around : FrameId} (here : frames[id]? = some frame)
    (unbound : frame.bindings.lookup name = none) (inside : frame.parent = some around)
    (earlier : around < id) : lookup frames name id = lookup frames name around := by
  rw [lookup, chain, here]
  simp only [List.findSome?_cons, ownBinding, here, Option.bind_some, unbound, inside, if_pos earlier]
  rfl

theorem lookup_of_outermost (here : frames[id]? = some frame)
    (unbound : frame.bindings.lookup name = none)
    (outside : ∀ around, frame.parent = some around → ¬ around < id) :
    lookup frames name id = none := by
  rw [lookup, chain, here]
  simp only [List.findSome?_cons, ownBinding, here, Option.bind_some, unbound]
  cases hparent : frame.parent with
  | none => rfl
  | some around =>
    simp only [if_neg (outside around hparent)]
    rfl

theorem Means.lookup_eq (h : Means frames name id v) : lookup frames name id = some v := by
  induction h with
  | own here bound => exact lookup_of_own here bound
  | outer here unbound inside earlier _ ih => rw [lookup_of_outer here unbound inside earlier, ih]

theorem means_of_lookup (h : lookup frames name id = some v) : Means frames name id v := by
  induction id using Nat.strongRecOn with
  | ind id ih =>
    cases here : frames[id]? with
    | none =>
      rw [lookup_of_no_frame here] at h
      cases h
    | some frame =>
      cases bound : frame.bindings.lookup name with
      | some v' =>
        rw [lookup_of_own here bound, Option.some.injEq] at h
        exact .own here (h ▸ bound)
      | none =>
        by_cases hparent : ∃ around, frame.parent = some around ∧ around < id
        · obtain ⟨around, inside, earlier⟩ := hparent
          rw [lookup_of_outer here bound inside earlier] at h
          exact .outer here bound inside earlier (ih around earlier h)
        · rw [lookup_of_outermost here bound fun around inside earlier =>
            hparent ⟨around, inside, earlier⟩] at h
          cases h

theorem means_iff : Means frames name id v ↔ lookup frames name id = some v :=
  ⟨Means.lookup_eq, means_of_lookup⟩

theorem lookup_eq_none_iff : lookup frames name id = none ↔ ∀ v, ¬ Means frames name id v := by
  simp only [means_iff, Option.eq_none_iff_forall_ne_some, ne_eq]

end CallScript
