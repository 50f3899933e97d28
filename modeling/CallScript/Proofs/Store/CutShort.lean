import CallScript.Proofs.Store.Writes

/-!
# What a limit cuts short

A computation that may end at a limit, beside the same computation with more room. Either the limit
makes no difference to it, or it ends at the limit, in a state that the other one passes through as
well and goes on from. Sequences of computations stand in this relation if their parts do. For the
limit on depth, going on means that the record so far is the beginning of the later one.
-/

namespace CallScript

section

variable {ε σ α β γ : Type} {limit : ε → Prop} {R : σ → σ → Prop} {x y : EStateM ε σ α}

/-- The first computation ends at a limit, and the second one goes on from there, or both come to the
same. -/
structure CutShort (limit : ε → Prop) (R : σ → σ → Prop) (x y : EStateM ε σ α) : Prop where
  goesOn : Maintains R y
  ends : ∀ s, (∃ cause s', x s = .error cause s' ∧ limit cause ∧ R s' (stateAfter y s)) ∨ y s = x s

namespace CutShort

theorem refl (h : Maintains R x) : CutShort limit R x x :=
  ⟨h, fun _ => .inr rfl⟩

theorem mono {limit' : ε → Prop} (h : CutShort limit R x y)
    (hlimit : ∀ cause, limit cause → limit' cause) : CutShort limit' R x y := by
  refine ⟨h.goesOn, fun s => (h.ends s).imp_left ?_⟩
  rintro ⟨cause, s', hx, hcause, hy⟩
  exact ⟨cause, s', hx, hlimit cause hcause, hy⟩

/-- What ends at a limit right away is cut short, whatever else it might have done. -/
theorem of_throw {cause : ε} (hlimit : limit cause) (h : Maintains R y) :
    CutShort limit R (throw cause) y :=
  ⟨h, fun s => .inl ⟨cause, s, rfl, hlimit, h s⟩⟩

theorem bind {f g : α → EStateM ε σ β} (hR : Lasting R) (hx : CutShort limit R x y)
    (hf : ∀ a, CutShort limit R (f a) (g a)) : CutShort limit R (x >>= f) (y >>= g) := by
  have hgoesOn : ∀ a, Maintains R (g a) := fun a => (hf a).goesOn
  refine ⟨.bind hR hx.goesOn hgoesOn, fun s => ?_⟩
  rcases hx.ends s with ⟨cause, s', hx', hlimit, hy⟩ | hy
  · refine .inl ⟨cause, s', by simp only [Bind.bind, EStateM.bind, hx'], hlimit, ?_⟩
    cases hs : y s with
    | ok a s'' =>
      rw [stateAfter_of_ok hs] at hy
      rw [stateAfter_bind_of_ok hs]
      exact hR.trans hy (hgoesOn a s'')
    | error cause' s'' =>
      rw [stateAfter_of_error hs] at hy
      rwa [stateAfter_bind_of_error hs]
  · simp only [stateAfter, Bind.bind, EStateM.bind, hy]
    cases x s with
    | ok a s' => exact (hf a).ends s'
    | error cause s' => exact .inr rfl

theorem mapM {act act' : γ → EStateM ε σ α} (hR : Lasting R)
    (h : ∀ item, CutShort limit R (act item) (act' item)) (items : List γ) :
    CutShort limit R (items.mapM act) (items.mapM act') := by
  induction items with
  | nil => exact refl (.pure hR [])
  | cons item rest ih =>
    rw [List.mapM_cons, List.mapM_cons]
    exact bind hR (h item) fun a => bind hR ih fun more => refl (.pure hR (a :: more))

end CutShort

end

/-- The record of the one world is the beginning of that of the other. -/
def Records (w w' : World) : Prop :=
  ∃ added, w'.events = w.events ++ added

theorem cumulative_records : Cumulative Records where
  refl _ := ⟨#[], by rw [Array.append_empty]⟩
  trans := by
    rintro first second third ⟨added, hadded⟩ ⟨more, hmore⟩
    exact ⟨added ++ more, by rw [hmore, hadded, Array.append_assoc]⟩
  object _ := ⟨#[], by rw [Array.append_empty]; rfl⟩
  event _ event := ⟨#[event], Array.push_eq_append⟩

theorem lasting_records : Lasting Records :=
  cumulative_records.toLasting

variable {α : Type} {x y : Run α}

/-- The first computation runs into the limit on depth, with the beginning of what the second one
records, or both come to the same. -/
def UpToDepth (x y : Run α) : Prop :=
  CutShort (· = .tooDeep) Records x y

namespace UpToDepth

theorem refl (h : Maintains Records x) : UpToDepth x x :=
  CutShort.refl h

theorem tooDeep (h : Maintains Records y) : UpToDepth (throw .tooDeep) y :=
  CutShort.of_throw rfl h

/-- A computation that ends elsewhere than at the limit comes to the same. -/
theorem eq_of_ne (h : UpToDepth x y) {w : World} (hne : ∀ w', x w ≠ .error .tooDeep w') :
    y w = x w := by
  rcases h.ends w with ⟨_, w', hx, rfl, -⟩ | hsame
  · exact absurd hx (hne w')
  · exact hsame

end UpToDepth

end CallScript
