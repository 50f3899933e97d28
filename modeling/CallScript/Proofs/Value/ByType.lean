import CallScript.Proofs.Store.Objects
import CallScript.Proofs.Value.Equivalence

/-!
# Equality by type

Values that are equal are of one type, and arrays that are equal have equal elements in the same places,
except that inside arrays a boolean also equals the number it counts as. This is the only exception: two
values are equal by type exactly if they are equal and do not bring these two together, and equal values
that do so at no depth have the same text.
-/

namespace CallScript.Value

variable {depth : Nat} {a b : Value} {c : Catalogue}

/-- The second value is the first one, or an element of it at some depth. -/
inductive Includes : Value → Value → Prop where
  | self {v : Value} : Includes v v
  | element {id : Nat} {vs : List Value} {v part : Value} (mem : v ∈ vs) (inside : Includes v part) :
      Includes (array id vs) part

/-- Values of different types that count as the same number among elements: a boolean, and one or zero. -/
def CountsAs (x y : Value) : Prop :=
  x.kind ≠ y.kind ∧ ∃ p q, x.magnitude? = some p ∧ y.magnitude? = some q ∧ (p == q) = true

/-- In some place of two arrays there is a boolean in the one and the number it counts as in the other. -/
def Clash : Value → Value → Prop
  | array _ xs, array _ ys => ∃ pair ∈ xs.zip ys, CountsAs pair.1 pair.2
  | _, _ => False

/-- Two arrays clash, or elements of theirs in the same places at some depth. -/
inductive Mixed : Value → Value → Prop where
  | here {u v : Value} (clash : Clash u v) : Mixed u v
  | inside {i j : Nat} {xs ys : List Value} {x y : Value} (pair : (x, y) ∈ xs.zip ys)
      (mixed : Mixed x y) : Mixed (array i xs) (array j ys)

theorem isNaN_of_includes_array {id : Nat} {vs : List Value}
    (each : ∀ v ∈ vs, ∀ part, v.Includes part → part.isNaN = false) :
    ∀ part, (array id vs).Includes part → part.isNaN = false
  | _, .self => rfl
  | part, .element mem inside => each _ mem part inside

theorem not_mixed_array {i j : Nat} {xs ys : List Value}
    (each : ∀ pair ∈ xs.zip ys, pair.1.kind = pair.2.kind ∧ ¬ Mixed pair.1 pair.2) :
    ¬ Mixed (array i xs) (array j ys)
  | .here ⟨pair, hpair, kinds, _⟩ => kinds (each pair hpair).1
  | .inside pair mixed => (each _ pair).2 mixed

/-- Equality by type: numbers are equal as doubles, strings and booleans by content, functions if they are
the same object, and arrays if they are equally long and equal in every place. -/
inductive EqualByType (depth : Nat) : Value → Value → Prop where
  | number {x y : Float} {m n : Nat} (equal : (x == y) = true) :
      EqualByType depth (number x m) (number y n)
  | string {s : String} : EqualByType depth (string s) (string s)
  | boolean {p : Bool} : EqualByType depth (boolean p) (boolean p)
  | function {f g : Value} (isFunction : f.kind = .function) (once : same f g = true) :
      EqualByType depth f g
  | array {i j : Nat} {xs ys : List Value}
      (each : List.Forall₂ (fun x y => equals? depth x y = some true) xs ys) :
      EqualByType depth (array i xs) (array j ys)

theorem EqualByType.kind_eq (h : EqualByType depth a b) : a.kind = b.kind := by
  cases h with
  | function isFunction once => exact kind_eq_of_same once
  | _ => rfl

/-- Elements that meet are of one type, unless the one counts as the other. -/
theorem kind_eq_of_meets (hapart : ¬ CountsAs a b) (h : Meets depth a b) : a.kind = b.kind := by
  rcases h with honce | hmatches
  · exact kind_eq_of_same honce
  · cases matches?_eq_true_iff.1 hmatches with
    | magnitude left right equal =>
      by_contra kinds
      exact hapart ⟨kinds, _, _, left, right, equal⟩
    | function isFunction once => exact kind_eq_of_same once
    | _ => rfl

/-- To look deeper than one of the values is nested makes no difference. -/
theorem equals?_eq_of_le {depth' : Nat} (hdepth : a.nesting ≤ depth) (hle : depth ≤ depth') (b : Value) :
    equals? depth' a b = equals? depth a b := by
  obtain ⟨answer, hanswer⟩ := Option.isSome_iff_exists.1 (equals?_isSome hdepth b)
  rw [hanswer, equals?_mono hle hanswer]

/-- What is the same object is equal, NaN apart. -/
theorem equals?_of_same (honce : same a b = true) (hnan : a.isNaN = false)
    (hdepth : a.nesting ≤ depth) : equals? depth a b = some true := by
  have hself : equals? (depth + 1) a a = some true := by rw [equals?_self, hnan, Bool.not_false]
  rw [← equals?_eq_of_le hdepth (Nat.le_succ depth), equals?_eq_true_iff]
  exact ⟨kind_eq_of_same honce, (Agree.of_same (same_symm honce) (equals?_eq_true_iff.1 hself).2).symm⟩

/-- Elements are equal as values exactly if they meet and the one does not count as the other. -/
theorem equals?_element_iff (hnan : a.isNaN = false) (hdepth : a.nesting ≤ depth) :
    equals? (depth + 1) a b = some true ↔ Meets depth a b ∧ ¬ CountsAs a b := by
  rw [equals?_eq_of_le hdepth (Nat.le_succ depth)]
  constructor
  · intro h
    obtain ⟨kinds, hagree⟩ := equals?_eq_true_iff.1 h
    exact ⟨.inr (matches?_eq_true_iff.2 hagree), fun hcounts => hcounts.1 kinds⟩
  · rintro ⟨honce | hmatches, hapart⟩
    · exact equals?_of_same honce hnan hdepth
    · have kinds := kind_eq_of_meets hapart (.inr hmatches)
      exact equals?_eq_true_iff.2 ⟨kinds, matches?_eq_true_iff.1 hmatches⟩

theorem equalByType_of_magnitude : ∀ {a b : Value} {p q : Float}, a.kind = b.kind →
    a.magnitude? = some p → b.magnitude? = some q → (p == q) = true → EqualByType depth a b
  | number .., number .., _, _, _, rfl, rfl, equal => .number equal
  | boolean p, boolean q, _, _, _, rfl, rfl, equal => by
    rw [ofBool_beq, beq_iff_eq] at equal
    exact equal ▸ .boolean

/-- Elements are equal as values throughout exactly if they meet throughout and nowhere clash. -/
theorem forall₂_equals?_iff {i j : Nat} {xs ys : List Value} (hdepth : nestingAll xs ≤ depth)
    (hnan : ∀ x ∈ xs, x.isNaN = false) :
    List.Forall₂ (fun x y => equals? (depth + 1) x y = some true) xs ys ↔
      List.Forall₂ (Meets depth) xs ys ∧ ¬ Clash (array i xs) (array j ys) := by
  have hpairs : ∀ x y, (x, y) ∈ xs.zip ys →
      (equals? (depth + 1) x y = some true ↔ Meets depth x y ∧ ¬ CountsAs x y) := by
    intro x y pair
    have hmem := (List.of_mem_zip pair).1
    exact equals?_element_iff (hnan x hmem) ((nesting_le_nestingAll hmem).trans hdepth)
  rw [List.forall₂_iff_zip, List.forall₂_iff_zip]
  constructor
  · rintro ⟨hlength, hequal⟩
    refine ⟨⟨hlength, fun pair => ((hpairs _ _ pair).1 (hequal pair)).1⟩, ?_⟩
    rintro ⟨⟨x, y⟩, pair, hcounts⟩
    exact ((hpairs x y pair).1 (hequal pair)).2 hcounts
  · rintro ⟨⟨hlength, hmeets⟩, hpure⟩
    refine ⟨hlength, fun {x y} pair => (hpairs x y pair).2 ⟨hmeets pair, fun hcounts => ?_⟩⟩
    exact hpure ⟨(x, y), pair, hcounts⟩

/-- Two values are equal by type exactly if they are equal and do not clash. -/
theorem equalByType_iff (hdepth : a.nesting ≤ depth)
    (hnan : ∀ part, a.Includes part → part.isNaN = false) :
    EqualByType depth a b ↔ equals? depth a b = some true ∧ ¬ Clash a b := by
  have helements : ∀ {i xs}, a = array i xs → ∀ x ∈ xs, x.isNaN = false := by
    rintro i xs rfl x hmem
    exact hnan x (.element hmem .self)
  rw [equals?_eq_true_iff]
  constructor
  · intro hequal
    refine (and_assoc.2 ⟨hequal.kind_eq, ?_⟩)
    cases hequal with
    | number equal => exact ⟨.magnitude rfl rfl equal, id⟩
    | string => exact ⟨.string, id⟩
    | boolean => exact ⟨.magnitude rfl rfl (by rw [ofBool_beq, beq_self_eq_true]), id⟩
    | function isFunction once =>
      refine ⟨.function isFunction once, ?_⟩
      cases a <;> first | exact id | cases isFunction
    | array each =>
      -- An array is nested at least one deep, so there is a level for its elements.
      cases depth with
      | zero => cases hdepth
      | succ depth =>
        have hbelow := Nat.succ_le_succ_iff.1 hdepth
        obtain ⟨hmeets, hpure⟩ := (forall₂_equals?_iff hbelow (helements rfl)).1 each
        exact ⟨.array hmeets, hpure⟩
  · rintro ⟨⟨kinds, hagree⟩, hpure⟩
    cases hagree with
    | magnitude left right equal => exact equalByType_of_magnitude kinds left right equal
    | string => exact .string
    | array each =>
      have hbelow := Nat.succ_le_succ_iff.1 hdepth
      exact .array ((forall₂_equals?_iff hbelow (helements rfl)).2 ⟨each, hpure⟩)
    | function isFunction once => exact .function isFunction once

theorem numberText_eq_of_beq {x y : Float} (h : (x == y) = true) : numberText x = numberText y := by
  have hzero : numberText 0 = numberText (-0) := by decide +kernel
  obtain ⟨-, -, rfl | ⟨rfl, rfl⟩ | ⟨rfl, rfl⟩⟩ := Float.beq_iff_ne_nan_and_eq.1 h
  · rfl
  · exact hzero
  · exact hzero.symm

theorem mapM_eq_of_forall₂ {α β γ : Type} {R : α → β → Prop} {f : α → Option γ} {g : β → Option γ}
    {as : List α} {bs : List β} (h : List.Forall₂ R as bs)
    (hR : ∀ a b, (a, b) ∈ as.zip bs → R a b → f a = g b) : as.mapM f = bs.mapM g := by
  induction h with
  | nil => rfl
  | @cons a b as bs hab _ ih =>
    have hrest := ih fun a' b' hmem => hR a' b' (List.mem_cons_of_mem _ hmem)
    rw [List.mapM_cons, List.mapM_cons, hR a b List.mem_cons_self hab, hrest]

/-- Values of one type that meet have the same text. -/
theorem text?_eq_of_meets {n : Nat} (room : Nat) (nested : Bool) (kinds : a.kind = b.kind)
    (h : Meets n a b) (hpure : ¬ Mixed a b) (ha : a.Listed c) (hb : b.Listed c) :
    text? room nested a = text? room nested b := by
  induction room generalizing n nested a b with
  | zero => rfl
  | succ room ih =>
    rcases h with honce | hmatches
    · rw [ha.eq_of_same hb honce]
    · cases matches?_eq_true_iff.1 hmatches with
      | magnitude left right equal =>
        have hequal : EqualByType n a b := equalByType_of_magnitude kinds left right equal
        cases hequal with
        | number equal => simp only [text?, numberText_eq_of_beq equal]
        | boolean => rfl
        | function isFunction => cases left.symm.trans (magnitude?_of_function isFunction)
        | string | array => cases left
      | string => rfl
      | array each =>
        -- Elements that meet are of one type again, and in the same catalogue.
        cases ha with
        | array _ eachLeft =>
        cases hb with
        | array _ eachRight =>
        rw [text?_array, text?_array, mapM_eq_of_forall₂ each fun x y pair hmeets => ?_]
        obtain ⟨hx, hy⟩ := List.of_mem_zip pair
        have hapart : ¬ CountsAs x y := fun hcounts => hpure (.here ⟨(x, y), pair, hcounts⟩)
        exact ih true (kind_eq_of_meets hapart hmeets) hmeets
          (fun hmixed => hpure (.inside pair hmixed)) (eachLeft x hx) (eachRight y hy)
      | function isFunction once => rw [ha.eq_of_same hb once]

/-- It is told whether two values are equal. They are equal by type exactly if they are equal and do not
clash, and equal values that clash at no depth have the same text. -/
theorem equals?_by_type (hdepth : a.nesting ≤ depth)
    (hnan : ∀ part, a.Includes part → part.isNaN = false) (ha : a.Listed c) (hb : b.Listed c) :
    ∃ answer, equals? depth a b = some answer ∧
      (EqualByType depth a b ↔ answer = true ∧ ¬ Clash a b) ∧
      (answer = true → ¬ Mixed a b → ∀ room nested, a.text? room nested = b.text? room nested) := by
  obtain ⟨answer, hanswer⟩ := Option.isSome_iff_exists.1 (equals?_isSome hdepth b)
  refine ⟨answer, hanswer, ?_, ?_⟩
  · rw [equalByType_iff hdepth hnan, hanswer, Option.some.injEq]
  · rintro rfl hpure room nested
    obtain ⟨kinds, hagree⟩ := equals?_eq_true_iff.1 hanswer
    exact text?_eq_of_meets room nested kinds (.inr (matches?_eq_true_iff.2 hagree)) hpure ha hb

end CallScript.Value
