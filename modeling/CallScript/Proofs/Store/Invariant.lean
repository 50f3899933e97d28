import CallScript.Proofs.Store.Maintains
import CallScript.Proofs.Store.World
import Mathlib.Data.List.Basic
import Mathlib.Order.Defs.PartialOrder

/-!
# Invariants of values

What holds of the values that programs start from often holds of all that they make of them. What may
be said of a value depends on what is known, as of the objects that were made before; as more objects
are made more is known, and what was said goes on to hold. A computation keeps an invariant if from a
world where it holds of everything that the frames bind, it leaves such a world.
-/

namespace CallScript

/-- Something that holds of values and expressions under what is known, and that evaluation keeps. -/
structure Invariant (κ : Type) [Preorder κ] where
  value : κ → Value → Prop
  expr : κ → Registry → Expr → Prop
  /-- What may be known where the next object gets the number. -/
  known : κ → Nat → Prop
  value_mono : ∀ {k k' v}, k ≤ k' → value k v → value k' v
  expr_mono : ∀ {k k' forms e}, k ≤ k' → expr k forms e → expr k' forms e
  literal : ∀ {k forms v}, expr k forms (.literal v) → value k v
  parts : ∀ {k forms operator args}, expr k forms (.apply operator args) →
    expr k forms operator ∧ ∀ e ∈ args, expr k forms e
  elements : ∀ {k id vs}, value k (.array id vs) → ∀ v ∈ vs, value k v
  body : ∀ {k id params body frame forms}, value k (.closure id params body frame forms) →
    expr k forms body
  number : ∀ {k} x, value k (.number x 0)
  boolean : ∀ {k} b, value k (.boolean b)
  native : ∀ {k} op home, value k (.native op home)
  join : ∀ {k s t}, value k (.string s) → value k (.string t) → value k (.string (s ++ t))
  newNumber : ∀ {k id} x, known k id →
    ∃ k', k ≤ k' ∧ known k' (id + 1) ∧ value k' (.number x id)
  newArray : ∀ {k id vs}, known k id → (∀ v ∈ vs, value k v) →
    ∃ k', k ≤ k' ∧ known k' (id + 1) ∧ value k' (.array id vs)
  newClosure : ∀ {k id body forms} params frame, known k id → expr k forms body →
    ∃ k', k ≤ k' ∧ known k' (id + 1) ∧ value k' (.closure id params body frame forms)

namespace Bindings

variable {P : Value → Prop} {bindings : Bindings}

theorem forall_bind (h : ∀ pair ∈ bindings, P pair.2) {value : Value} (hvalue : P value)
    (name : String) : ∀ pair ∈ bindings.bind name value, P pair.2 := by
  induction bindings with
  | nil => exact List.forall_mem_singleton.2 hvalue
  | cons pair rest ih =>
    obtain ⟨known, old⟩ := pair
    obtain ⟨hold, hrest⟩ := List.forall_mem_cons.1 h
    rw [Bindings.bind]
    split
    · exact List.forall_mem_cons.2 ⟨hvalue, hrest⟩
    · exact List.forall_mem_cons.2 ⟨hold, ih hrest⟩

theorem forall_ofPairs {pairs : List (String × Value)} (h : ∀ pair ∈ pairs, P pair.2) :
    ∀ pair ∈ ofPairs pairs, P pair.2 := by
  have hfold : ∀ bindings : Bindings, (∀ pair ∈ bindings, P pair.2) →
      ∀ pair ∈ pairs.foldl (fun bindings pair => bindings.bind pair.1 pair.2) bindings, P pair.2 := by
    induction pairs with
    | nil => exact fun _ hbindings => hbindings
    | cons pair rest ih =>
      obtain ⟨hpair, hrest⟩ := List.forall_mem_cons.1 h
      exact fun bindings hbindings => ih hrest _ (forall_bind hbindings hpair pair.1)
  exact hfold [] fun _ => nofun

theorem of_lookup (h : ∀ pair ∈ bindings, P pair.2) {name : String} {v : Value}
    (hv : bindings.lookup name = some v) : P v := by
  obtain ⟨before, after, hsplit, -⟩ := List.lookup_eq_some_iff.1 hv
  exact h (name, v) (by simp [hsplit])

end Bindings

namespace Invariant

variable {κ : Type} [Preorder κ] {inv : Invariant κ} {k k' : κ} {w w' : World}

/-- The invariant holds of every value that a frame binds. -/
structure OfWorld (inv : Invariant κ) (k : κ) (w : World) : Prop where
  known : inv.known k w.nextId
  bound : ∀ frame ∈ w.frames, ∀ pair ∈ frame.bindings, inv.value k pair.2

namespace OfWorld

theorem of_frames (h : inv.OfWorld k w) (hnext : w'.nextId = w.nextId)
    (hframes : w'.frames = w.frames) : inv.OfWorld k w' :=
  ⟨hnext ▸ h.known, hframes ▸ h.bound⟩

theorem made (h : inv.OfWorld k w) (hle : k ≤ k') (hknown : inv.known k' (w.nextId + 1))
    (hnext : w'.nextId = w.nextId + 1) (hframes : w'.frames = w.frames) : inv.OfWorld k' w' := by
  refine ⟨hnext ▸ hknown, ?_⟩
  rw [hframes]
  exact fun frame hframe pair hpair => inv.value_mono hle (h.bound frame hframe pair hpair)

theorem push (h : inv.OfWorld k w) {bindings : Bindings} (hbound : ∀ pair ∈ bindings, inv.value k pair.2)
    (parent : Option FrameId) : inv.OfWorld k (w.addFrame bindings parent).2 := by
  refine ⟨h.known, fun frame hframe => ?_⟩
  rcases Array.mem_push.1 hframe with hframe | rfl
  · exact h.bound frame hframe
  · exact hbound

theorem addRoot (h : inv.OfWorld k w) (writes : Bool) : inv.OfWorld k (w.addRoot writes).2 := by
  refine h.push (List.forall_mem_cons.2 ⟨inv.boolean true, ?_⟩) none
  refine List.forall_mem_cons.2 ⟨inv.boolean false, List.forall_mem_map.2 fun op _ => ?_⟩
  exact inv.native op w.frames.size

theorem withBinding (h : inv.OfWorld k w) {v : Value} (hv : inv.value k v) (id : FrameId)
    (name : String) : inv.OfWorld k (w.withBinding id name v) := by
  refine ⟨h.known, fun frame hframe => ?_⟩
  obtain ⟨place, hplace⟩ := Array.mem_iff_getElem?.1 hframe
  by_cases hid : place = id
  · subst hid
    rw [World.frames_withBinding_self, Option.map_eq_some_iff] at hplace
    obtain ⟨before, hbefore, rfl⟩ := hplace
    exact Bindings.forall_bind (h.bound before (Array.mem_of_getElem? hbefore)) hv name
  · rw [World.frames_withBinding_of_ne hid] at hplace
    exact h.bound frame (Array.mem_of_getElem? hplace)

theorem lookup (h : inv.OfWorld k w) {name : String} {id : FrameId} {v : Value}
    (hv : lookup w.frames name id = some v) : inv.value k v := by
  obtain ⟨place, -, hown⟩ := List.exists_of_findSome?_eq_some hv
  obtain ⟨frame, hframe, hlookup⟩ := Option.bind_eq_some_iff.1 hown
  exact Bindings.of_lookup (h.bound frame (Array.mem_of_getElem? hframe)) hlookup

end OfWorld

variable {α β γ : Type} {P : κ → α → Prop} {Q : κ → β → Prop} {x : Run α} {f : α → Run β}

/-- The invariant is kept, under what is known in the end, and the value has the property then. -/
def Keeps (inv : Invariant κ) (P : κ → α → Prop) (k : κ) (x : Run α) : Prop :=
  ∀ w, inv.OfWorld k w →
    ∃ k', k ≤ k' ∧ inv.OfWorld k' (stateAfter x w) ∧ ∀ a w', x w = .ok a w' → P k' a

namespace Keeps

theorem pure {a : α} (ha : P k a) : inv.Keeps P k (pure a : Run α) := by
  refine fun _ hw => ⟨k, le_refl k, hw, fun b w' hx => ?_⟩
  cases hx
  exact ha

theorem throw (halt : Halt) : inv.Keeps P k (throw halt : Run α) :=
  fun _ hw => ⟨k, le_refl k, hw, nofun⟩

theorem modify {change : World → World} (h : ∀ w, inv.OfWorld k w → inv.OfWorld k (change w)) :
    inv.Keeps (fun _ _ => True) k (modify change : Run PUnit) :=
  fun w hw => ⟨k, le_refl k, h w hw, fun _ _ _ => trivial⟩

theorem bind (hx : inv.Keeps P k x) (hf : ∀ a k', k ≤ k' → P k' a → inv.Keeps Q k' (f a)) :
    inv.Keeps Q k (x >>= f) := by
  intro w hw
  obtain ⟨k₁, hle₁, hw₁, hvalue⟩ := hx w hw
  cases hxw : x w with
  | ok a w₁ =>
    rw [stateAfter_of_ok hxw] at hw₁
    obtain ⟨k₂, hle₂, hw₂, hvalue'⟩ := hf a k₁ hle₁ (hvalue a w₁ hxw) w₁ hw₁
    refine ⟨k₂, le_trans hle₁ hle₂, stateAfter_bind_of_ok hxw ▸ hw₂, fun b w₂ hb => hvalue' b w₂ ?_⟩
    simpa only [Bind.bind, EStateM.bind, hxw] using hb
  | error halt w₁ =>
    rw [stateAfter_of_error hxw] at hw₁
    refine ⟨k₁, hle₁, stateAfter_bind_of_error hxw ▸ hw₁, fun b w₂ hb => ?_⟩
    simp only [Bind.bind, EStateM.bind, hxw] at hb
    cases hb

/-- Computations in turn keep an invariant that each of them keeps, whatever is known before it. -/
theorem mapM {act : γ → Run Value} {items : List γ}
    (h : ∀ item ∈ items, ∀ k', k ≤ k' → inv.Keeps inv.value k' (act item)) :
    inv.Keeps (fun k' vs => ∀ v ∈ vs, inv.value k' v) k (items.mapM act) := by
  induction items generalizing k with
  | nil => exact pure (by simp)
  | cons item rest ih =>
    obtain ⟨hitem, hrest⟩ := List.forall_mem_cons.1 h
    rw [List.mapM_cons]
    refine (hitem k (le_refl k)).bind fun v k₁ hle₁ hv => ?_
    refine (ih fun item hmem k' hle => hrest item hmem k' (le_trans hle₁ hle)).bind ?_
    intro more k₂ hle₂ hmore
    exact pure (List.forall_mem_cons.2 ⟨inv.value_mono hle₂ hv, hmore⟩)

theorem made {x : Run Value} (object : Nat → Value)
    (hx : ∀ w, ∃ w', x w = .ok (object w.nextId) w' ∧ w'.nextId = w.nextId + 1 ∧ w'.frames = w.frames)
    (h : ∀ {id}, inv.known k id → ∃ k', k ≤ k' ∧ inv.known k' (id + 1) ∧ inv.value k' (object id)) :
    inv.Keeps inv.value k x := by
  intro w hw
  obtain ⟨w', hxw, hnext, hframes⟩ := hx w
  obtain ⟨k', hle, hknown, hvalue⟩ := h hw.known
  refine ⟨k', hle, ?_, fun v w'' hv => ?_⟩
  · rw [stateAfter_of_ok hxw]
    exact hw.made hle hknown hnext hframes
  · cases hxw.symm.trans hv
    exact hvalue

theorem note (event : Event) : inv.Keeps (fun _ _ => True) k (World.note event) :=
  modify fun _ hw => hw.of_frames rfl rfl

end Keeps

end Invariant

end CallScript
