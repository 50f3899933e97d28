import CallScript.Proofs.Store.Scope
import CallScript.Proofs.Store.World

/-!
# What values refer to

A value refers to frames and to the numbers of objects. In a world that programs brought about, a
value refers only to frames that there are and to numbers that were given out, and a function that a
program made holds an expression of the language, without foreign nodes. So do all values that the
frames of such a world bind, and each frame stands inside an earlier one.
-/

namespace CallScript

/-- How many frames there are, and up to where numbers were given out. -/
structure Bounds where
  frames : Nat
  objects : Nat

namespace Bounds

/-- There are no more frames and numbers here than there. -/
structure Le (b b' : Bounds) : Prop where
  frames : b.frames ≤ b'.frames
  objects : b.objects ≤ b'.objects

instance : LE Bounds := ⟨Le⟩

theorem le_refl (b : Bounds) : b ≤ b :=
  ⟨Nat.le_refl _, Nat.le_refl _⟩

theorem le_trans {b b' b'' : Bounds} (h : b ≤ b') (h' : b' ≤ b'') : b ≤ b'' :=
  ⟨Nat.le_trans h.frames h'.frames, Nat.le_trans h.objects h'.objects⟩

end Bounds

mutual

/-- A value that refers to frames and numbers within bounds, in its parts and in the bodies of its
functions too. -/
inductive Value.Within (b : Bounds) : Value → Prop where
  | number {x mark} (made : mark < b.objects) : Value.Within b (.number x mark)
  | string {text} : Value.Within b (.string text)
  | boolean {truth} : Value.Within b (.boolean truth)
  | array {id elements} (made : id < b.objects) (each : ∀ v ∈ elements, Value.Within b v) :
      Value.Within b (.array id elements)
  | native {op home} (there : home < b.frames) : Value.Within b (.native op home)
  | closure {id params body frame forms} (made : id < b.objects) (there : frame < b.frames)
      (inside : Expr.Within b body) : Value.Within b (.closure id params body frame forms)

/-- An expression of the language whose literals are values within bounds. -/
inductive Expr.Within (b : Bounds) : Expr → Prop where
  | literal {v} (inside : Value.Within b v) : Expr.Within b (.literal v)
  | word {name} : Expr.Within b (.word name)
  | apply {operator args} (first : Expr.Within b operator) (rest : ∀ e ∈ args, Expr.Within b e) :
      Expr.Within b (.apply operator args)

end

mutual

theorem Value.Within.mono {b b' : Bounds} (hle : b ≤ b') {v : Value} :
    Value.Within b v → Value.Within b' v
  | .number made => .number (Nat.lt_of_lt_of_le made hle.objects)
  | .string => .string
  | .boolean => .boolean
  | .array made each =>
    .array (Nat.lt_of_lt_of_le made hle.objects) fun v hv => (each v hv).mono hle
  | .native there => .native (Nat.lt_of_lt_of_le there hle.frames)
  | .closure made there inside =>
    .closure (Nat.lt_of_lt_of_le made hle.objects) (Nat.lt_of_lt_of_le there hle.frames)
      (inside.mono hle)

theorem Expr.Within.mono {b b' : Bounds} (hle : b ≤ b') {e : Expr} :
    Expr.Within b e → Expr.Within b' e
  | .literal inside => .literal (inside.mono hle)
  | .word => .word
  | .apply first rest => .apply (first.mono hle) fun e he => (rest e he).mono hle

end

namespace World

def bounds (w : World) : Bounds :=
  ⟨w.frames.size, w.nextId⟩

/-- Everything that the value refers to is there. -/
def Has (w : World) (v : Value) : Prop :=
  v.Within w.bounds

/-- What a frame binds is within bounds, and the frame stands inside an earlier one, if in any. -/
structure FrameWithin (b : Bounds) (id : FrameId) (frame : Frame) : Prop where
  inside : ∀ around, frame.parent = some around → around < id
  bound : ∀ name v, frame.bindings.lookup name = some v → v.Within b

/-- Everything in the world refers to what is there, and the number `0` is kept back. -/
structure Proper (w : World) : Prop where
  kept : 0 < w.nextId
  frames : ∀ id frame, w.frames[id]? = some frame → FrameWithin w.bounds id frame

/-- A proper world that came from this one: nothing was taken away. -/
structure Grows (w w' : World) : Prop where
  le : w.bounds ≤ w'.bounds
  proper : w'.Proper

theorem FrameWithin.mono {b b' : Bounds} (hle : b ≤ b') {id : FrameId} {frame : Frame}
    (h : FrameWithin b id frame) : FrameWithin b' id frame :=
  ⟨h.inside, fun name v hv => (h.bound name v hv).mono hle⟩

variable {w w' w'' : World}

theorem Proper.grows (h : w.Proper) : Grows w w :=
  ⟨Bounds.le_refl _, h⟩

theorem Grows.trans (h : Grows w w') (h' : Grows w' w'') : Grows w w'' :=
  ⟨Bounds.le_trans h.le h'.le, h'.proper⟩

theorem Grows.has (h : Grows w w') {v : Value} (hv : w.Has v) : w'.Has v :=
  hv.mono h.le

theorem Grows.frame_lt (h : Grows w w') {id : FrameId} (hid : id < w.frames.size) :
    id < w'.frames.size :=
  Nat.lt_of_lt_of_le hid h.le.frames

theorem proper_empty : Proper .empty :=
  ⟨Nat.one_pos, fun id frame h => by simp [empty] at h⟩

theorem Proper.lookup (h : w.Proper) {name : String} {id : FrameId} {v : Value}
    (hv : Means w.frames name id v) : w.Has v := by
  induction hv with
  | own here bound => exact (h.frames _ _ here).bound _ _ bound
  | outer _ _ _ _ _ ih => exact ih

theorem Proper.withEvent (h : w.Proper) (event : Event) : Grows w (w.withEvent event) :=
  ⟨⟨Nat.le_refl _, Nat.le_refl _⟩, h.kept, h.frames⟩

theorem Proper.withWarning (h : w.Proper) (forms : Registry) (name : String) :
    Grows w (w.withWarning forms name) := by
  rw [World.withWarning]
  split
  · exact h.withEvent _
  · exact h.grows

theorem Proper.withObject (h : w.Proper) : Grows w w.withObject := by
  have hle : w.bounds ≤ w.withObject.bounds := ⟨Nat.le_refl _, Nat.le_succ _⟩
  exact ⟨hle, Nat.succ_pos _, fun id frame hframe => (h.frames id frame hframe).mono hle⟩

def withPushed (frame : Frame) (w : World) : World :=
  { w with frames := w.frames.push frame }

theorem bounds_le_withPushed (frame : Frame) (w : World) : w.bounds ≤ (w.withPushed frame).bounds :=
  ⟨by simp [bounds, withPushed], Nat.le_refl _⟩

theorem Proper.withPushed (h : w.Proper) {frame : Frame}
    (hframe : FrameWithin (w.withPushed frame).bounds w.frames.size frame) :
    Grows w (w.withPushed frame) := by
  have hle := bounds_le_withPushed frame w
  refine ⟨hle, h.kept, fun id other hother => ?_⟩
  rw [World.withPushed, Array.getElem?_push] at hother
  split at hother
  · next hid =>
    cases hother
    exact hid ▸ hframe
  · exact (h.frames id other hother).mono hle

theorem Proper.withFrame (h : w.Proper) {pairs : List (String × Value)} {around : FrameId}
    (hpairs : ∀ pair ∈ pairs, w.Has pair.2) (haround : around < w.frames.size) :
    Grows w (w.withFrame (Bindings.ofPairs pairs) around) := by
  refine h.withPushed (FrameWithin.mono (bounds_le_withPushed _ w) ⟨fun id hid => ?_, ?_⟩)
  · cases hid
    exact haround
  · intro name v hv
    rw [(Bindings.ofPairs_pairs pairs).last] at hv
    obtain ⟨before, after, hsplit, -⟩ := List.lookup_eq_some_iff.1 hv
    have hmem : (name, v) ∈ pairs.reverse := by simp [hsplit]
    exact hpairs _ (List.mem_reverse.1 hmem)

theorem Proper.withBinding (h : w.Proper) (id : FrameId) (name : String) {v : Value}
    (hv : w.Has v) : Grows w (w.withBinding id name v) := by
  have hle : w.bounds ≤ (w.withBinding id name v).bounds :=
    ⟨by simp [bounds, World.withBinding], Nat.le_refl _⟩
  refine ⟨hle, h.kept, fun other frame hframe => ?_⟩
  refine FrameWithin.mono hle ?_
  by_cases hid : other = id
  · subst hid
    rw [frames_withBinding_self, Option.map_eq_some_iff] at hframe
    obtain ⟨before, hbefore, rfl⟩ := hframe
    have hold := h.frames other before hbefore
    refine ⟨hold.inside, fun known value hvalue => ?_⟩
    by_cases hname : known = name
    · rw [hname, Bindings.lookup_bind_self, Option.some.injEq] at hvalue
      exact hvalue ▸ hv
    · rw [Bindings.lookup_bind_of_ne hname] at hvalue
      exact hold.bound known value hvalue
  · rw [frames_withBinding_of_ne hid] at hframe
    exact h.frames other frame hframe

/-- A new root frame binds the two booleans and native functions that belong to it. -/
theorem Proper.addRoot (h : w.Proper) (writes : Bool) : Grows w (w.addRoot writes).2 := by
  refine h.withPushed ⟨nofun, fun name v hv => ?_⟩
  have hhome : w.frames.size <
      (w.withPushed ⟨rootBindings writes w.frames.size, none⟩).frames.size := by
    simp [World.withPushed]
  have hv : (rootBindings writes w.frames.size).lookup name = some v := hv
  obtain ⟨before, after, hsplit, -⟩ := List.lookup_eq_some_iff.1 hv
  have hmem : (name, v) ∈ rootBindings writes w.frames.size := by simp [hsplit]
  simp only [rootBindings, List.mem_cons, Prod.mk.injEq, List.mem_map] at hmem
  rcases hmem with ⟨-, rfl⟩ | ⟨-, rfl⟩ | ⟨op, -, -, rfl⟩
  · exact .boolean
  · exact .boolean
  · exact .native hhome

end World

end CallScript
