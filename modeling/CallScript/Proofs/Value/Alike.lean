import CallScript.Proofs.Expr.Reads
import CallScript.Proofs.Value.Depth
import Mathlib.Data.List.Forall2

/-!
# Values that are alike

Two runs that go side by side use different places for what they make, and a name that neither of them
reads may mean different things to them. A matching tells which frames and which objects of the two
stand for each other. Two values are alike if they differ only so; no program can tell them apart, by
their texts or by comparing.
-/

namespace CallScript

/-- What stands for what in two runs. -/
structure Matching where
  /-- The names that may mean different things. -/
  hidden : String → Prop
  frame : FrameId → FrameId → Prop
  object : Nat → Nat → Prop
  /-- Frames stand in the same order. -/
  order : ∀ {i i' j j' : Nat}, frame i i' → frame j j' → (i < j ↔ i' < j')
  /-- No object stands for two. -/
  single : ∀ {i i' j j'}, object i i' → object j j' → (i = j ↔ i' = j')
  /-- The number that is kept back stands for itself. -/
  kept : object 0 0

theorem Matching.frame_eq_iff (m : Matching) {i i' j j' : Nat} (hi : m.frame i i')
    (hj : m.frame j j') : i = j ↔ i' = j' := by
  have hlt := m.order hi hj
  have hgt := m.order hj hi
  omega

/-- The two values are the same but for frames and objects that stand for each other. Functions have
the same body, which never reads a hidden name and holds nothing but literals that are alike. -/
inductive Value.Alike (m : Matching) : Value → Value → Prop where
  | number {x mark mark'} (same : m.object mark mark') : Alike m (.number x mark) (.number x mark')
  | string {text} : Alike m (.string text) (.string text)
  | boolean {b} : Alike m (.boolean b) (.boolean b)
  | array {id id' elements elements'} (same : m.object id id')
      (count : elements.length = elements'.length)
      (each : ∀ {v v'}, (v, v') ∈ elements.zip elements' → Alike m v v') :
      Alike m (.array id elements) (.array id' elements')
  | native {op home} : Alike m (.native op home) (.native op home)
  | closure {id id' params body home home' forms} (same : m.object id id')
      (there : m.frame home home') (quiet : body.NeverReads m.hidden forms)
      (held : ∀ v, body.Holds v → Alike m v v) :
      Alike m (.closure id params body home forms) (.closure id' params body home' forms)

/-- An expression that two runs can evaluate side by side. -/
structure Expr.Kept (m : Matching) (forms : Registry) (e : Expr) : Prop where
  quiet : e.NeverReads m.hidden forms
  held : ∀ v, e.Holds v → v.Alike m v

namespace Value.Alike

variable {m : Matching} {a a' b b' : Value}

theorem array_of_forall₂ {id id' : Nat} {elements elements' : List Value} (same : m.object id id')
    (h : List.Forall₂ (Value.Alike m) elements elements') :
    Value.Alike m (.array id elements) (.array id' elements') :=
  .array same h.length_eq (List.forall₂_iff_zip.1 h).2

theorem kind_eq (h : a.Alike m a') : a.kind = a'.kind := by
  cases h <;> rfl

theorem isFalse_eq (h : a.Alike m a') : a.isFalse = a'.isFalse := by
  cases h <;> rfl

/-- Everything in values with the property stands for itself, in their parts too. -/
structure StandsAlone (m : Matching) (P : Value → Prop) : Prop where
  number : ∀ {x mark}, P (.number x mark) → m.object mark mark
  array : ∀ {id elements}, P (.array id elements) → m.object id id ∧ ∀ v ∈ elements, P v
  closure : ∀ {id params body home forms}, P (.closure id params body home forms) →
    m.object id id ∧ m.frame home home ∧ body.NeverReads m.hidden forms ∧ ∀ v, body.Holds v → P v

theorem self {P : Value → Prop} (h : StandsAlone m P) : ∀ v, P v → Value.Alike m v v
  | .number .., hv => .number (h.number hv)
  | .string _, _ => .string
  | .boolean _, _ => .boolean
  | .array _ elements, hv => by
    obtain ⟨hid, heach⟩ := h.array hv
    exact .array_of_forall₂ hid (List.forall₂_same.2 fun v hmem => self h v (heach v hmem))
  | .native .., _ => .native
  | .closure _ _ body .., hv => by
    obtain ⟨hid, hhome, hquiet, heach⟩ := h.closure hv
    refine .closure hid hhome hquiet fun v hholds => ?_
    have := hholds.sizeOf_lt
    exact self h v (heach v hholds)

theorem eq (hframe : ∀ i i', m.frame i i' → i = i') (hobject : ∀ i i', m.object i i' → i = i')
    (h : a.Alike m a') : a = a' := by
  induction h with
  | number same => rw [hobject _ _ same]
  | array same count each ih =>
    have hall : List.Forall₂ Eq _ _ := List.forall₂_iff_zip.2 ⟨count, ih⟩
    rw [List.forall₂_eq_eq_eq] at hall
    rw [hobject _ _ same, hall]
  | closure same there => rw [hobject _ _ same, hframe _ _ there]
  | _ => rfl

theorem mapM_text_eq {depth : Nat} {vs vs' : List Value}
    (h : List.Forall₂ (fun v v' => ∀ depth nested, text? depth nested v = text? depth nested v') vs vs') :
    vs.mapM (text? depth true) = vs'.mapM (text? depth true) := by
  induction h with
  | nil => rfl
  | cons hv _ ih => rw [List.mapM_cons, List.mapM_cons, hv, ih]

/-- Values that are alike have the same text, at every depth. -/
theorem text?_eq (h : a.Alike m a') (depth : Nat) (nested : Bool) :
    a.text? depth nested = a'.text? depth nested := by
  induction h generalizing depth nested with
  | array same count each ih =>
    cases depth with
    | zero => rfl
    | succ depth =>
      have hall := List.forall₂_iff_zip.2 ⟨count, fun hpair depth nested => ih hpair depth nested⟩
      rw [text?_array, text?_array, mapM_text_eq hall]
  | _ => cases depth <;> rfl

theorem sameAll_eq {vs vs' us us' : List Value}
    (hvs : List.Forall₂ (fun v v' => ∀ u u', Value.Alike m u u' → same v u = same v' u') vs vs')
    (hus : List.Forall₂ (Value.Alike m) us us') : sameAll vs us = sameAll vs' us' := by
  induction hvs generalizing us us' with
  | nil => cases hus <;> rfl
  | cons hv _ ih =>
    cases hus with
    | nil => rfl
    | cons hu hus => rw [sameAll, sameAll, hv _ _ hu, ih hus]

theorem beq_eq_of_single {i i' j j' : Nat} (hi : m.object i i') (hj : m.object j j') :
    (i == j) = (i' == j') := by
  have := m.single hi hj
  rw [Bool.eq_iff_iff, beq_iff_eq, beq_iff_eq, this]

theorem same_eq (ha : a.Alike m a') (hb : b.Alike m b') : same a b = same a' b' := by
  induction ha generalizing b b' with
  | number hi =>
    cases hb with
    | number hj => rw [same, same, beq_eq_of_single hi hj]
    | _ => rfl
  | array hi count each ih =>
    cases hb with
    | array hj count' each' =>
      have hall : List.Forall₂ (fun v v' => ∀ u u', Value.Alike m u u' → same v u = same v' u') _ _ :=
        List.forall₂_iff_zip.2 ⟨count, fun hpair u u' hu => ih hpair hu⟩
      rw [same, same, beq_eq_of_single hi hj,
        sameAll_eq hall (List.forall₂_iff_zip.2 ⟨count', each'⟩)]
    | _ => rfl
  | closure hi =>
    cases hb with
    | closure hj => rw [same, same, beq_eq_of_single hi hj]
    | _ => rfl
  | _ => cases hb <;> rfl

theorem allPairs_eq {ask : Value → Value → Option Bool} {vs vs' us us' : List Value}
    (hask : ∀ v v' u u', Value.Alike m v v' → Value.Alike m u u' → ask v u = ask v' u')
    (hvs : List.Forall₂ (Value.Alike m) vs vs') (hus : List.Forall₂ (Value.Alike m) us us') :
    allPairs ask vs us = allPairs ask vs' us' := by
  induction hvs generalizing us us' with
  | nil => rfl
  | cons hv _ ih =>
    cases hus with
    | nil => rfl
    | cons hu hus => simp only [allPairs, hask _ _ _ _ hv hu, ih hus]

theorem matches?_eq (depth : Nat) (ha : a.Alike m a') (hb : b.Alike m b') :
    matches? depth a b = matches? depth a' b' := by
  have hsame := same_eq ha hb
  induction depth generalizing a a' b b' with
  | zero =>
    cases ha <;> cases hb <;> try simp only [matches?, hsame]
    next count _ _ _ _ _ _ count' _ => rw [count, count']
  | succ depth ih =>
    have hask : ∀ v v' u u', Value.Alike m v v' → Value.Alike m u u' →
        (if sameObject v u then some true else matches? depth v u) =
          if sameObject v' u' then some true else matches? depth v' u' := by
      intro v v' u u' hv hu
      rw [sameObject_eq, sameObject_eq, same_eq hv hu, ih hv hu (same_eq hv hu)]
    have hall := fun vs vs' us us' => @allPairs_eq m _ vs vs' us us' hask
    cases ha <;> cases hb <;> try simp only [matches?, hsame]
    next count each _ _ _ _ _ count' each' =>
      rw [count, count', hall _ _ _ _ (List.forall₂_iff_zip.2 ⟨count, each⟩)
        (List.forall₂_iff_zip.2 ⟨count', each'⟩)]

theorem equals?_eq (depth : Nat) (ha : a.Alike m a') (hb : b.Alike m b') :
    equals? depth a b = equals? depth a' b' := by
  rw [equals?, equals?, ha.kind_eq, hb.kind_eq, matches?_eq depth ha hb]

end Value.Alike

end CallScript
