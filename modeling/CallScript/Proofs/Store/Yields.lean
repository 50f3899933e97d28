import CallScript.Proofs.Eval.Outcome
import CallScript.Proofs.Store.Within

/-!
# What computations yield

What a computation comes to in a proper world: it leaves a proper world that grew out of this one,
its value has a property there, and if it is stopped, then by no fault of the interpreter. Sequences
pass all of this on from one part to the next.
-/

namespace CallScript

/-- The interpreter is to blame, and not the program or a limit. -/
def Halt.isInternal : Halt → Bool
  | .fault cause => cause.isInternal
  | _ => false

variable {α β γ : Type} {P : World → α → Prop} {Q : World → β → Prop} {w w' : World}

/-- From the world the computation goes on to a proper one, in which its value has the property. No
fault of the interpreter stops it. -/
def Yields (P : World → α → Prop) (x : Run α) (w : World) : Prop :=
  match x w with
  | .ok a w' => w.Grows w' ∧ P w' a
  | .error halt w' => w.Grows w' ∧ halt.isInternal = false

namespace Yields

theorem ok {x : Run α} {a : α} (h : Yields P x w) (hx : x w = .ok a w') : w.Grows w' ∧ P w' a := by
  rwa [Yields, hx] at h

theorem error {x : Run α} {halt : Halt} (h : Yields P x w) (hx : x w = .error halt w') :
    w.Grows w' ∧ halt.isInternal = false := by
  rwa [Yields, hx] at h

theorem of_value {x : Run α} {a : α} (hx : x w = (Outcome.value a).result w') (hw : w.Grows w')
    (ha : P w' a) : Yields P x w := by
  rw [Yields, hx]
  exact ⟨hw, ha⟩

theorem pure (hw : w.Proper) {a : α} (ha : P w a) : Yields P (pure a : Run α) w :=
  ⟨hw.grows, ha⟩

theorem throw (hw : w.Proper) {halt : Halt} (h : halt.isInternal = false) :
    Yields P (throw halt : Run α) w :=
  ⟨hw.grows, h⟩

theorem bind {x : Run α} {f : α → Run β} (hx : Yields P x w)
    (hf : ∀ a w', w.Grows w' → P w' a → Yields Q (f a) w') : Yields Q (x >>= f) w := by
  cases hw : x w with
  | ok a w' =>
    obtain ⟨hgrows, ha⟩ := hx.ok hw
    have hrest := hf a w' hgrows ha
    rw [Yields, bind_of_value hw]
    cases hw' : f a w' with
    | ok b w'' =>
      obtain ⟨hgrows', hb⟩ := hrest.ok hw'
      exact ⟨hgrows.trans hgrows', hb⟩
    | error halt w'' =>
      obtain ⟨hgrows', hhalt⟩ := hrest.error hw'
      exact ⟨hgrows.trans hgrows', hhalt⟩
  | error halt w' =>
    have hbind : (x >>= f) w = .error halt w' := by simp only [Bind.bind, EStateM.bind, hw]
    rw [Yields, hbind]
    exact hx.error hw

theorem mapM {act : γ → Run α} {items : List γ} (hw : w.Proper)
    (hact : ∀ item ∈ items, ∀ w', w.Grows w' → Yields P (act item) w')
    (hP : ∀ a w₁ w₂, w₁.Grows w₂ → P w₁ a → P w₂ a) :
    Yields (fun w' as => ∀ a ∈ as, P w' a) (items.mapM act) w := by
  induction items generalizing w with
  | nil => exact pure hw (by simp)
  | cons item rest ih =>
    obtain ⟨hitem, hrest⟩ := List.forall_mem_cons.1 hact
    rw [List.mapM_cons]
    refine bind (hitem w hw.grows) fun a w₁ hw₁ ha => ?_
    refine bind (ih hw₁.proper fun item hmem w₂ hw₂ => hrest item hmem w₂ (hw₁.trans hw₂)) ?_
    intro more w₂ hw₂ hmore
    exact pure hw₂.proper (List.forall_mem_cons.2 ⟨hP a w₁ w₂ hw₂ ha, hmore⟩)

end Yields

end CallScript
