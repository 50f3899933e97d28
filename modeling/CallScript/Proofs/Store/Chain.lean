import CallScript.Proofs.Store.World

/-!
# Chains of frames

The chain of a frame follows the parents outwards and ends at a frame without one, since parents always
stand at earlier places. A name means what the nearest frame of the chain says that binds it, and a frame
in a chain is seen, for a name, if no nearer one binds this name. To bind a name in a frame changes what
the name means exactly where that frame is seen for it.
-/

namespace CallScript

variable {frames frames' : Array Frame} {name other : String} {id home around : FrameId} {frame : Frame}
variable {value v : Value} {path : List FrameId}

/-- The frames from one of them outwards, along the parents, to one that has no parent. -/
inductive Path (frames : Array Frame) : FrameId → List FrameId → Prop where
  | outermost {id : FrameId} {frame : Frame} (here : frames[id]? = some frame)
      (outside : frame.parent = none) : Path frames id [id]
  | inside {id around : FrameId} {frame : Frame} {path : List FrameId}
      (here : frames[id]? = some frame) (inside : frame.parent = some around)
      (outwards : Path frames around path) : Path frames id (id :: path)

/-- Every frame stands behind its parent. -/
def ParentsFirst (frames : Array Frame) : Prop :=
  ∀ (id : FrameId) (frame : Frame) (around : FrameId), frames[id]? = some frame →
    frame.parent = some around → around < id

/-- A new frame stands behind its parent if the parent is there already. -/
theorem ParentsFirst.push (h : ParentsFirst frames) {new : Frame}
    (there : ∀ around, new.parent = some around → around < frames.size) :
    ParentsFirst (frames.push new) := by
  intro id frame around here inside
  rw [Array.getElem?_push] at here
  by_cases hid : id = frames.size
  · rw [if_pos hid] at here
    cases here
    exact hid ▸ there around inside
  · rw [if_neg hid] at here
    exact h id frame around here inside

theorem ParentsFirst.of_parents_eq (h : ParentsFirst frames) {frames' : Array Frame}
    (hsame : ∀ id : FrameId, frames'[id]?.map Frame.parent = frames[id]?.map Frame.parent) :
    ParentsFirst frames' := by
  intro id frame around here inside
  have hparent := hsame id
  rw [here, Option.map_some, inside, eq_comm, Option.map_eq_some_iff] at hparent
  obtain ⟨before, hbefore, hinside⟩ := hparent
  exact h id before around hbefore hinside

theorem Path.begins (h : Path frames id path) : ∃ above, path = id :: above := by
  cases h with
  | outermost here outside => exact ⟨[], rfl⟩
  | inside here inside outwards => exact ⟨_, rfl⟩

theorem chain_of_outermost (here : frames[id]? = some frame) (outside : frame.parent = none) :
    chain frames id = [id] := by
  rw [chain, here]
  simp only [outside]

theorem chain_of_inside (here : frames[id]? = some frame) (inside : frame.parent = some around)
    (earlier : around < id) : chain frames id = id :: chain frames around := by
  rw [chain, here]
  simp only [inside, if_pos earlier]

/-- Along the parents there is a frame without one, and the chain is the way there. -/
theorem path_chain (h : ParentsFirst frames) (hid : id < frames.size) :
    Path frames id (chain frames id) := by
  induction id using Nat.strongRecOn with
  | ind id ih =>
    have here : frames[id]? = some frames[id] := Array.getElem?_eq_getElem hid
    cases hparent : frames[id].parent with
    | none =>
      rw [chain_of_outermost here hparent]
      exact .outermost here hparent
    | some around =>
      have earlier := h id _ around here hparent
      rw [chain_of_inside here hparent earlier]
      exact .inside here hparent (ih around earlier (Nat.lt_trans earlier hid))

/-- The depth of a frame is the number of frames on the way outwards, itself not counted. -/
theorem frameDepth_of_path (h : Path frames id (chain frames id)) :
    ∃ above, Path frames id (id :: above) ∧ frameDepth frames id = above.length := by
  obtain ⟨above, habove⟩ := h.begins
  refine ⟨above, habove ▸ h, ?_⟩
  rw [frameDepth, habove, List.length_cons, Nat.add_sub_cancel]

/-- The frame `home` is in a list, and no frame before it says anything. -/
def First (own : FrameId → Option Value) (home : FrameId) (ids : List FrameId) : Prop :=
  ∃ nearer further, ids = nearer ++ home :: further ∧ ∀ between ∈ nearer, own between = none

/-- The frame `home` is in the chain of a frame, and none that is nearer binds the name. -/
def Sees (frames : Array Frame) (name : String) (id home : FrameId) : Prop :=
  First (ownBinding frames name) home (chain frames id)

theorem isBound_eq (name : String) (id : FrameId) :
    isBound frames name id = (lookup frames name id).isSome := by
  rw [isBound, lookup]
  induction chain frames id with
  | nil => rfl
  | cons id rest ih =>
    rw [List.any_cons, List.findSome?_cons, ih]
    cases ownBinding frames name id <;> rfl

/-- A name means what the nearest frame of the chain says that binds it. -/
theorem lookup_eq_some_iff :
    lookup frames name id = some v ↔
      ∃ home, Sees frames name id home ∧ ownBinding frames name home = some v := by
  rw [lookup, List.findSome?_eq_some_iff]
  constructor
  · rintro ⟨nearer, home, further, hchain, hv, hnone⟩
    exact ⟨home, ⟨nearer, further, hchain, hnone⟩, hv⟩
  · rintro ⟨home, ⟨nearer, further, hchain, hnone⟩, hv⟩
    exact ⟨nearer, home, further, hchain, hv, hnone⟩

theorem first_cons_of_ne {own : FrameId → Option Value} {ids : List FrameId} (hne : id ≠ home) :
    First own home (id :: ids) ↔ own id = none ∧ First own home ids := by
  constructor
  · rintro ⟨nearer, further, hids, hnone⟩
    cases nearer with
    | nil => exact absurd (List.cons.inj hids).1 hne
    | cons near nearer =>
      obtain ⟨rfl, rfl⟩ := List.cons.inj hids
      obtain ⟨hnear, hnone⟩ := List.forall_mem_cons.1 hnone
      exact ⟨hnear, nearer, further, rfl, hnone⟩
  · rintro ⟨hid, nearer, further, rfl, hnone⟩
    exact ⟨id :: nearer, further, rfl, List.forall_mem_cons.2 ⟨hid, hnone⟩⟩

/-- What is found first in a list once `home` says something, if nothing else has changed. -/
theorem findSome?_of_own {own own' : FrameId → Option Value} (hown : own' home = some value)
    (hsame : ∀ id, id ≠ home → own' id = own id) (ids : List FrameId) :
    (First own home ids → ids.findSome? own' = some value) ∧
      (¬ First own home ids → ids.findSome? own' = ids.findSome? own) := by
  induction ids with
  | nil =>
    refine ⟨fun h => ?_, fun _ => rfl⟩
    obtain ⟨nearer, further, hnil, -⟩ := h
    cases nearer <;> cases hnil
  | cons id ids ih =>
    by_cases hid : id = home
    · subst hid
      have hfirst : First own id (id :: ids) := ⟨[], ids, rfl, by simp⟩
      exact ⟨fun _ => by rw [List.findSome?_cons, hown], fun h => absurd hfirst h⟩
    · rw [first_cons_of_ne hid, List.findSome?_cons, List.findSome?_cons, hsame id hid]
      cases own id with
      | none => simpa using ih
      | some v => simp

/-- The chain of a frame depends on the parents alone. -/
theorem chain_congr (h : ∀ id : FrameId, frames'[id]?.map Frame.parent = frames[id]?.map Frame.parent)
    (id : FrameId) : chain frames' id = chain frames id := by
  induction id using Nat.strongRecOn with
  | ind id ih =>
    have hid := h id
    rw [chain, chain]
    cases here : frames[id]? with
    | none =>
      rw [here, Option.map_none, Option.map_eq_none_iff] at hid
      rw [hid]
    | some frame =>
      rw [here, Option.map_some, Option.map_eq_some_iff] at hid
      obtain ⟨frame', here', hparent⟩ := hid
      simp only [here', hparent]
      cases frame.parent with
      | none => rfl
      | some around =>
        by_cases earlier : around < id
        · simp only [if_pos earlier, ih around earlier]
        · simp only [if_neg earlier]

namespace World

variable {w : World}

theorem parents_withBinding (home : FrameId) (name : String) (value : Value) (w : World)
    (id : FrameId) : (w.withBinding home name value).frames[id]?.map Frame.parent =
      w.frames[id]?.map Frame.parent := by
  by_cases h : id = home
  · subst h
    rw [frames_withBinding_self, Option.map_map]
    rfl
  · rw [frames_withBinding_of_ne h]

theorem chain_withBinding (home : FrameId) (name : String) (value : Value) (w : World)
    (id : FrameId) : chain (w.withBinding home name value).frames id = chain w.frames id :=
  chain_congr (parents_withBinding home name value w) id

theorem ownBinding_withBinding_self (h : home < w.frames.size) (name : String) (value : Value) :
    ownBinding (w.withBinding home name value).frames name home = some value := by
  rw [ownBinding, frames_withBinding_self, Array.getElem?_eq_getElem h]
  exact Bindings.lookup_bind_self name value _

theorem ownBinding_withBinding_of_ne (h : id ≠ home ∨ other ≠ name) (value : Value) (w : World) :
    ownBinding (w.withBinding home name value).frames other id = ownBinding w.frames other id := by
  by_cases hid : id = home
  · subst hid
    rw [ownBinding, ownBinding, frames_withBinding_self]
    cases w.frames[id]? with
    | none => rfl
    | some frame => exact Bindings.lookup_bind_of_ne (h.resolve_left fun hne => hne rfl) value _
  · rw [ownBinding, ownBinding, frames_withBinding_of_ne hid]

/-- Where the frame is seen for the name, the name means the value now. -/
theorem lookup_withBinding_of_sees (hhome : home < w.frames.size) (h : Sees w.frames name id home) :
    lookup (w.withBinding home name value).frames name id = some value := by
  rw [lookup, chain_withBinding]
  have hown := ownBinding_withBinding_self hhome name value
  exact (findSome?_of_own hown (fun _ hne => ownBinding_withBinding_of_ne (.inl hne) value w) _).1 h

/-- Any other name, and the name anywhere else, means what it meant before. -/
theorem lookup_withBinding (hhome : home < w.frames.size)
    (h : ¬ (other = name ∧ Sees w.frames name id home)) :
    lookup (w.withBinding home name value).frames other id = lookup w.frames other id := by
  rw [lookup, lookup, chain_withBinding]
  by_cases hother : other = name
  · subst hother
    have hown := ownBinding_withBinding_self hhome other value
    refine (findSome?_of_own hown
      (fun _ hne => ownBinding_withBinding_of_ne (.inl hne) value w) _).2 fun hsees => h ⟨rfl, hsees⟩
  · have hsame : ownBinding (w.withBinding home name value).frames other = ownBinding w.frames other :=
      funext fun _ => ownBinding_withBinding_of_ne (.inr hother) value w
    rw [hsame]

theorem frameDepth_withBinding (home : FrameId) (name : String) (value : Value) (w : World)
    (id : FrameId) : frameDepth (w.withBinding home name value).frames id = frameDepth w.frames id := by
  rw [frameDepth, chain_withBinding, frameDepth]

end World

end CallScript
