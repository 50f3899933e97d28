import CallScript.Proofs.Eval.Invariant
import Mathlib.Order.Basic

/-!
# Strings of programs

Programs make new strings only by joining two that there are. So a property that joining keeps, once it
holds of the strings in a program and in a world, holds of every string that evaluation gives or leaves
anywhere, those in arrays and in the bodies of functions included.
-/

namespace CallScript

variable {p : String → Prop}

mutual

/-- Every string in the value has the property, down to the body of a function. -/
inductive Value.EachString (p : String → Prop) : Value → Prop where
  | number {x mark} : Value.EachString p (.number x mark)
  | string {text} (holds : p text) : Value.EachString p (.string text)
  | boolean {truth} : Value.EachString p (.boolean truth)
  | array {id elements} (each : ∀ v ∈ elements, Value.EachString p v) :
      Value.EachString p (.array id elements)
  | native {op home} : Value.EachString p (.native op home)
  | closure {id params body frame forms} (inside : Expr.EachString p body) :
      Value.EachString p (.closure id params body frame forms)

/-- Every string in the expression has the property. -/
inductive Expr.EachString (p : String → Prop) : Expr → Prop where
  | literal {v} (inside : Value.EachString p v) : Expr.EachString p (.literal v)
  | word {name} : Expr.EachString p (.word name)
  | foreign {quoted plain} : Expr.EachString p (.foreign quoted plain)
  | apply {operator args} (first : Expr.EachString p operator)
      (rest : ∀ e ∈ args, Expr.EachString p e) : Expr.EachString p (.apply operator args)

end

def Bindings.EachString (p : String → Prop) (bindings : Bindings) : Prop :=
  ∀ pair ∈ bindings, pair.2.EachString p

def World.EachString (p : String → Prop) (w : World) : Prop :=
  ∀ frame ∈ w.frames, frame.bindings.EachString p

theorem World.EachString.empty : World.empty.EachString p := by
  intro frame hframe
  simp [World.empty] at hframe

/-- What joining keeps is an invariant, whatever is known of the objects there are. -/
def Invariant.eachString {κ : Type} [Preorder κ] (p : String → Prop)
    (hjoin : ∀ s t, p s → p t → p (s ++ t)) : Invariant κ where
  value _ v := v.EachString p
  expr _ _ e := e.EachString p
  known _ _ := True
  value_mono _ h := h
  expr_mono _ h := h
  literal h := by cases h; assumption
  parts h := by cases h; exact ⟨‹_›, ‹_›⟩
  elements h := by cases h; assumption
  body h := by cases h; assumption
  number _ := .number
  boolean _ := .boolean
  native _ _ := .native
  join := by
    rintro _ s t ⟨⟩ ⟨⟩
    exact .string (hjoin s t ‹_› ‹_›)
  newNumber _ _ := ⟨_, le_refl _, trivial, .number⟩
  newArray _ each := ⟨_, le_refl _, trivial, .array each⟩
  newClosure _ _ _ inside := ⟨_, le_refl _, trivial, .closure inside⟩

theorem World.eachString_iff {κ : Type} [Preorder κ] (hjoin : ∀ s t, p s → p t → p (s ++ t)) (k : κ)
    {w : World} : w.EachString p ↔ (Invariant.eachString p hjoin).OfWorld k w :=
  ⟨fun h => ⟨trivial, h⟩, fun h => h.bound⟩

/-- What joining keeps, evaluation keeps, whether it gives a value or is stopped. -/
theorem eval_keepsStrings (hjoin : ∀ s t, p s → p t → p (s ++ t)) (rounds depth : Nat)
    (forms : Registry) (frame : FrameId) (e : Expr) (he : e.EachString p) (w : World)
    (hw : w.EachString p) :
    (stateAfter (eval rounds depth forms frame e) w).EachString p ∧
      ∀ v w', eval rounds depth forms frame e w = .ok v w' → v.EachString p := by
  obtain ⟨_, -, hw', hvalue⟩ :=
    eval_keeps (.eachString p hjoin) rounds depth () forms frame e he w
      ((World.eachString_iff hjoin ()).1 hw)
  exact ⟨(World.eachString_iff hjoin ()).2 hw', hvalue⟩

end CallScript
