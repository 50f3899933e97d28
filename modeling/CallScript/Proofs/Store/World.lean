import CallScript.Proofs.Store.Bindings
import CallScript.Store.World

/-!
# Changes of worlds

The single changes that an evaluation makes to a world, each as a function on worlds.
-/

namespace CallScript.World

def withEvent (event : Event) (w : World) : World :=
  { w with events := w.events.push event }

def withObject (w : World) : World :=
  { w with nextId := w.nextId + 1 }

/-- The world with a new frame inside another one. -/
def withFrame (bindings : Bindings) (around : FrameId) (w : World) : World :=
  { w with frames := w.frames.push ⟨bindings, some around⟩ }

/-- The world in which a frame binds a name to a value. -/
def withBinding (id : FrameId) (name : String) (value : Value) (w : World) : World :=
  { w with frames := w.frames.modify id fun frame =>
      { frame with bindings := Bindings.bind name value frame.bindings } }

/-- The world in which the user was warned if a name about to be bound is that of a special form. -/
def withWarning (forms : Registry) (name : String) (w : World) : World :=
  if (forms.lookup name).isSome then w.withEvent (.notice (.shadowsForm name)) else w

theorem frames_withFrame_of_lt {bindings : Bindings} {around id : FrameId} {w : World}
    (h : id < w.frames.size) : (w.withFrame bindings around).frames[id]? = w.frames[id]? := by
  rw [withFrame, Array.getElem?_push, if_neg (Nat.ne_of_lt h)]

theorem frames_withBinding_self (id : FrameId) (name : String) (value : Value) (w : World) :
    (w.withBinding id name value).frames[id]? = w.frames[id]?.map fun frame =>
      { frame with bindings := Bindings.bind name value frame.bindings } := by
  rw [withBinding, Array.getElem?_modify, if_pos rfl]

theorem frames_withBinding_of_ne {id other : FrameId} (h : other ≠ id) (name : String)
    (value : Value) (w : World) :
    (w.withBinding id name value).frames[other]? = w.frames[other]? := by
  rw [withBinding, Array.getElem?_modify, if_neg (Ne.symm h)]

end CallScript.World
