import CallScript.Proofs.Eval.Step
import CallScript.Proofs.Store.Chain

/-!
# Laws of scoping

Frames are made one after another, outermost ones and ones inside others, out of mappings that are handed
over, and names are bound in them. A frame keeps its bindings in a dictionary of its own, into which what
is in the mapping is copied; so no frame shares its dictionary with another one, nor with whoever handed
the mapping over. However the frames came about, names mean what their chains say, and to bind a name in
a frame changes what it means where this frame is seen, and nothing else.
-/

namespace CallScript

variable {w w' : World} {name : String} {value : Value}

/-- A dictionary, and the frame that keeps its bindings there, unless it is a mapping of a caller. -/
structure Dictionary where
  content : Bindings
  owner : Option FrameId

/-- A frame as it is laid out: where the dictionary with its bindings is, and its parent. -/
structure Placed where
  dictionary : Nat
  parent : Option FrameId

/-- All dictionaries, and all frames. -/
structure Layout where
  dictionaries : Array Dictionary
  frames : Array Placed

namespace Layout

variable {l : Layout}

def content (place : Nat) (l : Layout) : Bindings :=
  match l.dictionaries[place]? with
  | none => []
  | some dictionary => dictionary.content

/-- What is copied into a new frame: the content of a dictionary, or nothing. -/
def copied (source : Option Nat) (l : Layout) : Bindings :=
  match source with
  | none => []
  | some place => l.content place

def addMapping (bindings : Bindings) (l : Layout) : Layout :=
  { l with dictionaries := l.dictionaries.push ⟨bindings, none⟩ }

/-- A frame is made out of a mapping, with a new dictionary. -/
def construct (source : Option Nat) (parent : Option FrameId) (l : Layout) : Layout :=
  { dictionaries := l.dictionaries.push ⟨l.copied source, some l.frames.size⟩
    frames := l.frames.push ⟨l.dictionaries.size, parent⟩ }

/-- A name is bound in the dictionary of a frame. -/
def define (home : FrameId) (name : String) (value : Value) (l : Layout) : Layout :=
  match l.frames[home]? with
  | none => l
  | some frame =>
    { l with dictionaries := l.dictionaries.modify frame.dictionary fun dictionary =>
        { dictionary with content := Bindings.bind name value dictionary.content } }

/-- A frame with the bindings in its dictionary. -/
def frameOf (l : Layout) (frame : Placed) : Frame :=
  ⟨l.content frame.dictionary, frame.parent⟩

/-- The layout is that of the frames of a world: they have the bindings in their dictionaries, each in one
of its own, and they stand behind their parents. -/
structure Describes (l : Layout) (w : World) : Prop where
  size : w.frames.size = l.frames.size
  frames : ∀ id : FrameId, w.frames[id]? = l.frames[id]?.map l.frameOf
  owned : ∀ id frame, l.frames[id]? = some frame →
    l.dictionaries[frame.dictionary]?.map Dictionary.owner = some (some id)
  parents : ParentsFirst w.frames

end Layout

/-- Frames, and the layout of them, that come about by making frames and binding names in them. -/
inductive Built : Layout → World → Prop where
  | nothing {w : World} (none : w.frames = #[]) : Built ⟨#[], #[]⟩ w
  | mapping {l : Layout} {w : World} (bindings : Bindings) (before : Built l w) :
      Built (l.addMapping bindings) w
  | root {l : Layout} {w : World} (source : Option Nat) (before : Built l w) :
      Built (l.construct source none) (w.addFrame (l.copied source) none).2
  | child {l : Layout} {w : World} {around : FrameId} (source : Option Nat) (before : Built l w)
      (there : around < w.frames.size) :
      Built (l.construct source (some around)) (w.addFrame (l.copied source) (some around)).2
  | define {l : Layout} {w w' : World} {home : FrameId} {name : String} {value : Value}
      (before : Built l w) (there : home < w.frames.size)
      (bound : World.define home name value w = .ok () w') : Built (l.define home name value) w'

namespace Layout

variable {l : Layout}

theorem content_push {place : Nat} (h : place < l.dictionaries.size) (dictionary : Dictionary)
    (frames : Array Placed) :
    Layout.content place ⟨l.dictionaries.push dictionary, frames⟩ = l.content place := by
  rw [content, content, Array.getElem?_push, if_neg (Nat.ne_of_lt h)]

theorem Describes.dictionary_lt (h : l.Describes w) {id : FrameId} {frame : Placed}
    (here : l.frames[id]? = some frame) : frame.dictionary < l.dictionaries.size := by
  have howned := h.owned id frame here
  rw [Option.map_eq_some_iff] at howned
  obtain ⟨dictionary, hplace, -⟩ := howned
  exact (Array.getElem?_eq_some_iff.1 hplace).1

theorem Describes.frameOf_push (h : l.Describes w) (dictionary : Dictionary) (frames : Array Placed)
    (id : FrameId) :
    l.frames[id]?.map (frameOf ⟨l.dictionaries.push dictionary, frames⟩) = w.frames[id]? := by
  rw [h.frames id]
  cases here : l.frames[id]? with
  | none => rfl
  | some frame => simp only [Option.map_some, frameOf, content_push (h.dictionary_lt here)]

theorem Describes.owned_push (h : l.Describes w) (dictionary : Dictionary) {id : FrameId}
    {frame : Placed} (here : l.frames[id]? = some frame) :
    (l.dictionaries.push dictionary)[frame.dictionary]?.map Dictionary.owner = some (some id) := by
  rw [Array.getElem?_push, if_neg (Nat.ne_of_lt (h.dictionary_lt here))]
  exact h.owned id frame here

theorem describes_nothing (hnone : w.frames = #[]) : Describes ⟨#[], #[]⟩ w := by
  refine ⟨by rw [hnone]; rfl, fun id => by simp [hnone], fun id frame here => ?_, fun id frame around here => ?_⟩
  · simp at here
  · simp [hnone] at here

theorem Describes.addMapping (h : l.Describes w) (bindings : Bindings) :
    (l.addMapping bindings).Describes w :=
  ⟨h.size, fun id => (h.frameOf_push ⟨bindings, none⟩ l.frames id).symm,
    fun _ _ here => h.owned_push ⟨bindings, none⟩ here, h.parents⟩

theorem Describes.construct (h : l.Describes w) (source : Option Nat) {parent : Option FrameId}
    (there : ∀ around, parent = some around → around < w.frames.size) :
    (l.construct source parent).Describes (w.addFrame (l.copied source) parent).2 := by
  have hsize := h.size
  constructor
  · simp only [World.addFrame, Layout.construct, Array.size_push, hsize]
  · intro id
    have hpush := h.frameOf_push ⟨l.copied source, some l.frames.size⟩
      (l.frames.push ⟨l.dictionaries.size, parent⟩) id
    simp only [World.addFrame, Layout.construct, Array.getElem?_push, hsize]
    by_cases hid : id = l.frames.size
    · rw [if_pos hid, if_pos hid, Option.map_some, frameOf, Layout.content, Array.getElem?_push_size]
    · rw [if_neg hid, if_neg hid, hpush]
  · intro id frame here
    simp only [Layout.construct, Array.getElem?_push] at here ⊢
    by_cases hid : id = l.frames.size
    · rw [if_pos hid] at here
      cases here
      rw [if_pos rfl, hid]
      rfl
    · rw [if_neg hid] at here
      rw [← Array.getElem?_push]
      exact h.owned_push _ here
  · exact h.parents.push there

theorem define_of_some {home : FrameId} {frame : Placed} (here : l.frames[home]? = some frame)
    (name : String) (value : Value) :
    l.define home name value =
      { l with dictionaries := l.dictionaries.modify frame.dictionary fun dictionary =>
          { dictionary with content := Bindings.bind name value dictionary.content } } := by
  rw [Layout.define, here]

theorem Describes.eq_of_dictionary (h : l.Describes w) {id id' : FrameId} {frame frame' : Placed}
    (here : l.frames[id]? = some frame) (here' : l.frames[id']? = some frame')
    (hsame : frame'.dictionary = frame.dictionary) : id' = id := by
  have howned := h.owned id frame here
  have howned' := h.owned id' frame' here'
  rw [hsame, howned] at howned'
  exact (Option.some.inj (Option.some.inj howned')).symm

theorem Describes.define (h : l.Describes w) {home : FrameId} (there : home < w.frames.size)
    (name : String) (value : Value) :
    (l.define home name value).Describes (w.withBinding home name value) := by
  obtain ⟨frame, here⟩ : ∃ frame, l.frames[home]? = some frame :=
    ⟨_, Array.getElem?_eq_getElem (h.size ▸ there)⟩
  obtain ⟨dictionary, hplace⟩ : ∃ dictionary, l.dictionaries[frame.dictionary]? = some dictionary :=
    ⟨_, Array.getElem?_eq_getElem (h.dictionary_lt here)⟩
  rw [define_of_some here]
  constructor
  · rw [World.withBinding, Array.size_modify, h.size]
  · intro id
    by_cases hid : id = home
    · subst hid
      rw [World.frames_withBinding_self, h.frames id, here]
      simp only [Option.map_some, frameOf, content, Array.getElem?_modify, if_pos, hplace]
    · rw [World.frames_withBinding_of_ne hid, h.frames id]
      cases here' : l.frames[id]? with
      | none => rfl
      | some frame' =>
        -- No other frame has this dictionary, so what is bound in it is not seen there.
        have hother : ¬ frame.dictionary = frame'.dictionary :=
          fun hsame => hid (h.eq_of_dictionary here here' hsame.symm)
        simp only [Option.map_some, frameOf, content, Array.getElem?_modify, if_neg hother]
  · intro id frame' here'
    have howned := h.owned id frame' here'
    dsimp only
    rw [Array.getElem?_modify]
    split
    · rw [Option.map_map]
      exact howned
    · exact howned
  · exact h.parents.of_parents_eq (World.parents_withBinding home name value w)

/-- Every dictionary stays as it is but that of the frame in which a name is bound. -/
theorem Describes.dictionaries_define (h : l.Describes w) {home : FrameId}
    (there : home < w.frames.size) (name : String) (value : Value) {place : Nat}
    {dictionary : Dictionary} (hplace : l.dictionaries[place]? = some dictionary)
    (hother : dictionary.owner ≠ some home) :
    (l.define home name value).dictionaries[place]? = some dictionary := by
  obtain ⟨frame, here⟩ : ∃ frame, l.frames[home]? = some frame :=
    ⟨_, Array.getElem?_eq_getElem (h.size ▸ there)⟩
  have howned := h.owned home frame here
  rw [define_of_some here]
  dsimp only
  rw [Array.getElem?_modify, if_neg, hplace]
  rintro rfl
  rw [hplace, Option.map_some, Option.some.injEq] at howned
  exact hother howned

end Layout

theorem Built.describes {l : Layout} (h : Built l w) : l.Describes w := by
  induction h with
  | nothing none => exact Layout.describes_nothing none
  | mapping bindings before ih => exact ih.addMapping bindings
  | root source before ih => exact ih.construct source nofun
  | child source before there ih =>
    refine ih.construct source fun around' hsome => ?_
    cases hsome
    exact there
  | define before there bound ih =>
    rw [World.define_eq] at bound
    cases bound
    exact ih.define there _ _

/-- What holds of names and frames in a world. -/
structure Scoped (w : World) : Prop where
  /-- The parents of a frame lead to one without a parent, along the chain of the frame. -/
  finite : ∀ id, id < w.frames.size → Path w.frames id (chain w.frames id)
  /-- The depth of a frame is the number of frames above it. -/
  depth : ∀ id, id < w.frames.size →
    ∃ above, Path w.frames id (id :: above) ∧ frameDepth w.frames id = above.length
  /-- A name is bound where it can be looked up. -/
  bound : ∀ id name, isBound w.frames name id = true ↔ ∃ v, World.fetch id name w = .ok v w
  /-- Elsewhere there is a fault. -/
  unbound : ∀ id name, isBound w.frames name id = false →
    World.fetch id name w = .error (.fault (.undefined name)) w
  /-- What is looked up is the binding of the nearest frame in the chain that binds the name. -/
  nearest : ∀ id name v, World.fetch id name w = .ok v w ↔
    ∃ home, Sees w.frames name id home ∧ ownBinding w.frames name home = some v

/-- What is different once a frame binds a name. -/
structure Binds (home : FrameId) (name : String) (value : Value) (w w' : World) : Prop where
  /-- Where the frame is seen for the name, the name means the value. -/
  seen : ∀ id, Sees w.frames name id home → World.fetch id name w' = .ok value w'
  /-- Everywhere else it means what it meant, if anything, and so do all other names. -/
  kept : ∀ id other, ¬ (other = name ∧ Sees w.frames name id home) →
    ∀ v, World.fetch id other w' = .ok v w' ↔ World.fetch id other w = .ok v w
  chain : ∀ id, chain w'.frames id = chain w.frames id
  depth : ∀ id, frameDepth w'.frames id = frameDepth w.frames id

theorem fetch_eq_ok_iff {id : FrameId} {v : Value} :
    World.fetch id name w = .ok v w ↔ lookup w.frames name id = some v := by
  rw [World.fetch_eq]
  cases lookup w.frames name id with
  | none => simp [Outcome.result]
  | some v' => simp [Outcome.result]

theorem scoped_of_parentsFirst (h : ParentsFirst w.frames) : Scoped w := by
  constructor
  · exact fun id hid => path_chain h hid
  · exact fun id hid => frameDepth_of_path (path_chain h hid)
  · intro id name
    rw [isBound_eq, Option.isSome_iff_exists]
    simp only [fetch_eq_ok_iff]
  · intro id name hnone
    rw [isBound_eq, Option.isSome_eq_false_iff, Option.isNone_iff_eq_none] at hnone
    rw [World.fetch_eq, hnone]
    rfl
  · intro id name v
    rw [fetch_eq_ok_iff, lookup_eq_some_iff]

theorem binds_withBinding {home : FrameId} (there : home < w.frames.size) (name : String)
    (value : Value) : Binds home name value w (w.withBinding home name value) := by
  constructor
  · intro id hsees
    rw [fetch_eq_ok_iff]
    exact World.lookup_withBinding_of_sees there hsees
  · intro id other hnot v
    rw [fetch_eq_ok_iff, fetch_eq_ok_iff, World.lookup_withBinding there hnot]
  · exact World.chain_withBinding home name value w
  · exact World.frameDepth_withBinding home name value w

/-- However frames came about, their chains are finite, a name is bound in a frame where it can be looked
up there, it means what the nearest frame in the chain says that binds it, and the depth of a frame is the
number of frames above it. To bind a name in a frame changes what this name means where that frame is seen
for it, and nothing else; every dictionary stays as it is but that of the frame, and so do the mappings
that frames were made out of. -/
theorem scoping_laws {l : Layout} (h : Built l w) :
    l.Describes w ∧ Scoped w ∧
      ∀ home, home < w.frames.size → ∀ name value, ∃ w',
        World.define home name value w = .ok () w' ∧ Built (l.define home name value) w' ∧
        Binds home name value w w' ∧
        ∀ (place : Nat) (dictionary : Dictionary), l.dictionaries[place]? = some dictionary →
          dictionary.owner ≠ some home →
          (l.define home name value).dictionaries[place]? = some dictionary := by
  have hdescribes := h.describes
  refine ⟨hdescribes, scoped_of_parentsFirst hdescribes.parents, fun home there name value => ?_⟩
  exact ⟨w.withBinding home name value, rfl, .define h there rfl, binds_withBinding there name value,
    fun _ _ => hdescribes.dictionaries_define there name value⟩

/-- A frame that is made out of a mapping, and one inside it. The inner frame sees what the outer one
binds anew, and the mapping does not change. -/
theorem scoping_laws_copied :
    ∃ l w w', Built l w ∧ l.dictionaries[0]? = some ⟨[("x", .string "old")], none⟩ ∧
      l.copied (some 0) = [("x", .string "old")] ∧ Scoped w ∧
      World.define 0 "x" (.string "new") w = .ok () w' ∧
      World.fetch 1 "x" w' = .ok (.string "new") w' ∧
      (l.define 0 "x" (.string "new")).dictionaries[0]? = some ⟨[("x", .string "old")], none⟩ := by
  have hroot := Built.root (some 0) (.mapping [("x", .string "old")] (@Built.nothing .empty rfl))
  have hbuilt := Built.child none hroot (by decide : 0 < _)
  obtain ⟨-, hscoped, hdefine⟩ := scoping_laws hbuilt
  obtain ⟨w', hrun, -, hbinds, hkept⟩ := hdefine 0 (by decide) "x" (.string "new")
  refine ⟨_, _, w', hbuilt, rfl, rfl, hscoped, hrun, hbinds.seen 1 ⟨[1], [], ?_, ?_⟩,
    hkept 0 _ rfl (by decide)⟩
  · rw [chain_of_inside rfl rfl (by decide), chain_of_outermost rfl rfl]
    rfl
  · intro between hbetween
    rw [List.mem_singleton.1 hbetween]
    rfl

end CallScript
