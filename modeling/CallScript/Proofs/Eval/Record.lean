import CallScript.Proofs.Eval.Parallel

/-!
# What was recorded before

An evaluation adds lines and notices to the record and never looks at what is there. In two worlds that
differ only in their records it comes to the same value or the same error, and adds the same.
-/

namespace CallScript

def Matching.identity : Matching where
  hidden _ := False
  frame := Eq
  object := Eq
  order := by
    rintro i i' j j' rfl rfl
    exact Iff.rfl
  single := @Eq.congr Nat
  kept := Eq.refl Nat.zero

theorem Value.Alike.identity (v : Value) : v.Alike .identity v := by
  have hself : StandsAlone .identity fun _ => True :=
    ⟨fun _ => rfl, fun _ => ⟨rfl, fun _ _ => trivial⟩,
      fun _ => ⟨rfl, rfl, Expr.neverReads_of_none _ _, fun _ _ => trivial⟩⟩
  exact .self hself v trivial

theorem Value.Alike.eq_of_identity {v v' : Value} (h : v.Alike .identity v') : v = v' :=
  h.eq (fun _ _ h => h) fun _ _ h => h

theorem rel_self {α : Type} {R : α → α → Prop} (hR : ∀ a, R a a) (o : Option α) :
    Option.Rel R o o := by
  cases o with
  | none => exact .none
  | some a => exact .some (hR a)

theorem beside_identity {w w' : World} (hframes : w.frames = w'.frames) (hnext : w.nextId = w'.nextId) :
    Beside .identity w w' w w' := by
  refine ⟨?_, fun k => ?_, fun k => ?_, #[], by simp, by rw [Array.append_empty],
    by rw [Array.append_empty]⟩
  · rintro i _ rfl
    rw [hframes]
    exact rel_self (fun frame => ⟨rel_self (fun _ => rfl) _, fun _ _ => rel_self .identity _⟩) _
  · show w.frames.size + k = w'.frames.size + k
    rw [hframes]
  · show w.nextId + k = w'.nextId + k
    rw [hnext]

theorem eval_sameRecord (rounds depth : Nat) (forms : Registry) (frame : FrameId) (e : Expr)
    {w w' : World} (hframes : w.frames = w'.frames) (hnext : w.nextId = w'.nextId) :
    EndAlike (SameRecord w w') Eq (eval rounds depth forms frame e w)
      (eval rounds depth forms frame e w') := by
  have hkept : e.Kept .identity forms := ⟨Expr.neverReads_of_none forms e, fun v _ => .identity v⟩
  have hruns := @evaluatesAlongside .identity w w' rounds depth forms frame frame e rfl hkept w w'
    (beside_identity hframes hnext)
  exact hruns.mono (fun hafter => hafter.events) fun _ _ hv => hv.eq_of_identity

end CallScript
