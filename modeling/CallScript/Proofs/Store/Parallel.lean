import CallScript.Proofs.Store.Maintains
import Mathlib.Data.List.Forall2

/-!
# Computations side by side

Two computations from two states that are alike. They run in parallel if they end in the same way: both
with values that are alike, or both with the same error, and in states that are alike again. What is put
together from computations that run in parallel runs in parallel too.
-/

namespace CallScript

variable {ε σ α α' β β' γ : Type} {S : σ → σ → Prop} {Q : α → α' → Prop} {Q' : β → β' → Prop}

/-- Two results of the same sort, with states and values that are alike. -/
inductive EndAlike (S : σ → σ → Prop) (Q : α → α' → Prop) :
    EStateM.Result ε σ α → EStateM.Result ε σ α' → Prop where
  | ok {a a' s s'} (states : S s s') (values : Q a a') : EndAlike S Q (.ok a s) (.ok a' s')
  | error {cause s s'} (states : S s s') : EndAlike S Q (.error cause s) (.error cause s')

theorem EndAlike.mono {S' : σ → σ → Prop} {P : α → α' → Prop} {x : EStateM ε σ α} {y : EStateM ε σ α'}
    {s s' : σ} (h : EndAlike S Q (x s) (y s'))
    (hS : S (stateAfter x s) (stateAfter y s') → S' (stateAfter x s) (stateAfter y s'))
    (hQ : ∀ a a', Q a a' → P a a') : EndAlike S' P (x s) (y s') := by
  cases hx : x s <;> cases hy : y s' <;> rw [hx, hy] at h
  · rw [stateAfter_of_ok hx, stateAfter_of_ok hy] at hS
    cases h with
    | ok states values => exact .ok (hS states) (hQ _ _ values)
  · cases h
  · cases h
  · rw [stateAfter_of_error hx, stateAfter_of_error hy] at hS
    cases h with
    | error states => exact .error (hS states)

/-- From states that are alike the two computations end alike. -/
def Parallel (S : σ → σ → Prop) (Q : α → α' → Prop) (x : EStateM ε σ α) (y : EStateM ε σ α') : Prop :=
  ∀ s s', S s s' → EndAlike S Q (x s) (y s')

namespace Parallel

variable {x : EStateM ε σ α} {y : EStateM ε σ α'} {f : α → EStateM ε σ β} {g : α' → EStateM ε σ β'}

theorem pure {a : α} {a' : α'} (h : Q a a') :
    Parallel S Q (pure a : EStateM ε σ α) (pure a' : EStateM ε σ α') :=
  fun _ _ hs => .ok hs h

theorem throw (cause : ε) :
    Parallel S Q (throw cause : EStateM ε σ α) (throw cause : EStateM ε σ α') :=
  fun _ _ hs => .error hs

theorem modify {change change' : σ → σ} (h : ∀ s s', S s s' → S (change s) (change' s')) :
    Parallel S (fun _ _ => True) (modify change : EStateM ε σ PUnit)
      (modify change' : EStateM ε σ PUnit) :=
  fun s s' hs => .ok (h s s' hs) trivial

theorem bind (hx : Parallel S Q x y) (hf : ∀ a a', Q a a' → Parallel S Q' (f a) (g a')) :
    Parallel S Q' (x >>= f) (y >>= g) := by
  intro s s' hs
  have hfirst := hx s s' hs
  simp only [Bind.bind, EStateM.bind]
  cases hxs : x s <;> cases hys : y s' <;> rw [hxs, hys] at hfirst
  · cases hfirst with
    | ok states values => exact hf _ _ values _ _ states
  · cases hfirst
  · cases hfirst
  · cases hfirst with
    | error states => exact .error states

theorem mapM {act : γ → EStateM ε σ α} {act' : γ → EStateM ε σ α'} {items : List γ}
    (h : ∀ item ∈ items, Parallel S Q (act item) (act' item)) :
    Parallel S (List.Forall₂ Q) (items.mapM act) (items.mapM act') := by
  induction items with
  | nil => exact pure .nil
  | cons item rest ih =>
    obtain ⟨hitem, hrest⟩ := List.forall_mem_cons.1 h
    rw [List.mapM_cons, List.mapM_cons]
    refine bind hitem fun a a' ha => ?_
    exact bind (ih hrest) fun more more' hmore => pure (.cons ha hmore)

end Parallel

end CallScript
