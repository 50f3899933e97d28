import CallScript.Eval.Basic

/-!
# Outcomes of computations

A computation that neither limit ends gives a value or a fault, and leaves a world behind. What such
an outcome says about the parts of a computation depends on how it was put together: a sequence ends
with the fault of its first part, or as its second part does.
-/

namespace CallScript

/-- How a computation ends when no limit ends it. -/
inductive Outcome (α : Type) where
  | value (v : α)
  | fault (cause : Fault)

/-- The result of a computation with that outcome. -/
def Outcome.result {α : Type} : Outcome α → World → EStateM.Result Halt World α
  | value v, w => .ok v w
  | fault cause, w => .error (.fault cause) w

variable {α β : Type} {o : Outcome α} {w w' : World}

theorem Outcome.result_inj {o' : Outcome α} : o.result w = o'.result w' ↔ o = o' ∧ w = w' := by
  cases o <;> cases o' <;> simp [result]

theorem pure_eq_result_iff {a : α} : (pure a : Run α) w = o.result w' ↔ o = .value a ∧ w' = w := by
  have h : (pure a : Run α) w = (Outcome.value a).result w := rfl
  rw [h, Outcome.result_inj, eq_comm, eq_comm (a := w)]

theorem throw_fault_eq_result_iff {cause : Fault} :
    (throw (.fault cause) : Run α) w = o.result w' ↔ o = .fault cause ∧ w' = w := by
  have h : (throw (.fault cause) : Run α) w = (Outcome.fault cause).result w := rfl
  rw [h, Outcome.result_inj, eq_comm, eq_comm (a := w)]

theorem throw_tooDeep_ne_result : (throw .tooDeep : Run α) w ≠ o.result w' := by
  cases o <;> exact nofun

theorem throw_outOfRounds_ne_result : (throw .outOfRounds : Run α) w ≠ o.result w' := by
  cases o <;> exact nofun

theorem throw_bind (halt : Halt) (f : α → Run β) : (throw halt : Run α) >>= f = throw halt :=
  rfl

theorem bind_of_value {x : Run α} {f : α → Run β} {a : α} (h : x w = (Outcome.value a).result w') :
    (x >>= f) w = f a w' := by
  have hx : x w = .ok a w' := h
  simp only [bind, EStateM.bind, hx]

theorem bind_of_fault {x : Run α} {f : α → Run β} {cause : Fault}
    (h : x w = (Outcome.fault cause).result w') :
    (x >>= f) w = (Outcome.fault cause).result w' := by
  have hx : x w = .error (.fault cause) w' := h
  simp only [bind, EStateM.bind, hx, Outcome.result]

theorem bind_eq_result_iff {x : Run α} {f : α → Run β} {o : Outcome β} :
    (x >>= f) w = o.result w' ↔
      (∃ a w₁, x w = (Outcome.value a).result w₁ ∧ f a w₁ = o.result w') ∨
        ∃ cause, x w = (Outcome.fault cause).result w' ∧ o = .fault cause := by
  constructor
  · intro h
    cases hx : x w with
    | ok a w₁ =>
      rw [bind_of_value hx] at h
      exact .inl ⟨a, w₁, rfl, h⟩
    | error halt w₁ =>
      have hbind : (x >>= f) w = .error halt w₁ := by simp only [bind, EStateM.bind, hx]
      rw [hbind] at h
      cases o with
      | value v => cases h
      | fault cause =>
        cases h
        exact .inr ⟨cause, rfl, rfl⟩
  · rintro (⟨a, w₁, hx, hf⟩ | ⟨cause, hx, rfl⟩)
    · rw [bind_of_value hx, hf]
    · exact bind_of_fault hx

end CallScript
