/-!
# What computations maintain

A computation maintains a relation between the state before and the state after if it holds whenever
the computation ends, with a value or without one. Computations put together from such parts maintain
a relation that holds where nothing changes and that passes on from one part to the next.
-/

namespace CallScript

variable {ε σ α β : Type} {R R' : σ → σ → Prop} {x : EStateM ε σ α} {f : α → EStateM ε σ β}

/-- The state that a computation leaves, whether it gives a value or is stopped. -/
def stateAfter (x : EStateM ε σ α) (s : σ) : σ :=
  match x s with
  | .ok _ s' => s'
  | .error _ s' => s'

theorem stateAfter_of_ok {a : α} {s s' : σ} (h : x s = .ok a s') : stateAfter x s = s' := by
  rw [stateAfter, h]

theorem stateAfter_of_error {cause : ε} {s s' : σ} (h : x s = .error cause s') :
    stateAfter x s = s' := by
  rw [stateAfter, h]

theorem stateAfter_bind_of_ok {a : α} {s s' : σ} (h : x s = .ok a s') :
    stateAfter (x >>= f) s = stateAfter (f a) s' := by
  simp only [stateAfter, bind, EStateM.bind, h]

theorem stateAfter_bind_of_error {cause : ε} {s s' : σ} (h : x s = .error cause s') :
    stateAfter (x >>= f) s = s' := by
  simp only [stateAfter, bind, EStateM.bind, h]

/-- What a computation does with the state that it reads. -/
theorem get_bind (f : σ → EStateM ε σ β) (s : σ) : (get >>= f) s = f s s :=
  rfl

/-- The relation holds between the state before a computation and the state that it leaves. -/
def Maintains (R : σ → σ → Prop) (x : EStateM ε σ α) : Prop :=
  ∀ s, R s (stateAfter x s)

/-- A relation that holds where nothing changes, and passes on. -/
structure Lasting (R : σ → σ → Prop) : Prop where
  refl : ∀ s, R s s
  trans : ∀ {first second third : σ}, R first second → R second third → R first third

namespace Maintains

theorem of_ok (h : Maintains R x) {a : α} {s s' : σ} (hx : x s = .ok a s') : R s s' :=
  stateAfter_of_ok hx ▸ h s

theorem of_error (h : Maintains R x) {cause : ε} {s s' : σ} (hx : x s = .error cause s') : R s s' :=
  stateAfter_of_error hx ▸ h s

theorem mono (h : Maintains R x) (hRR' : ∀ s s', R s s' → R' s s') : Maintains R' x :=
  fun s => hRR' s _ (h s)

theorem pure (hR : Lasting R) (a : α) : Maintains R (pure a : EStateM ε σ α) :=
  fun s => hR.refl s

theorem throw (hR : Lasting R) (cause : ε) : Maintains R (throw cause : EStateM ε σ α) :=
  fun s => hR.refl s

theorem modify {change : σ → σ} (h : ∀ s, R s (change s)) :
    Maintains R (modify change : EStateM ε σ PUnit) :=
  fun s => h s

theorem bind (hR : Lasting R) (hx : Maintains R x) (hf : ∀ a, Maintains R (f a)) :
    Maintains R (x >>= f) := by
  intro s
  cases hs : x s with
  | ok a s' =>
    rw [stateAfter_bind_of_ok hs]
    exact hR.trans (hx.of_ok hs) (hf a s')
  | error cause s' =>
    rw [stateAfter_bind_of_error hs]
    exact hx.of_error hs

/-- What a computation does with the state that it reads may depend on this state. -/
theorem get_bind {f : σ → EStateM ε σ β} (h : ∀ s, R s (stateAfter (f s) s)) :
    Maintains R (get >>= f) :=
  fun s => h s

theorem get (hR : Lasting R) : Maintains R (get : EStateM ε σ σ) :=
  fun s => hR.refl s

theorem mapM {γ : Type} {act : γ → EStateM ε σ α} (hR : Lasting R) {items : List γ}
    (h : ∀ item ∈ items, Maintains R (act item)) : Maintains R (items.mapM act) := by
  induction items with
  | nil => exact pure hR []
  | cons item rest ih =>
    obtain ⟨hitem, hrest⟩ := List.forall_mem_cons.1 h
    rw [List.mapM_cons]
    refine bind hR hitem fun a => ?_
    exact bind hR (ih hrest) fun more => pure hR (a :: more)

end Maintains

end CallScript
