import CallScript.Proofs.Value.Depth
import Mathlib

-- No smaller part of the library has the laws of equality on doubles.

/-!
# Equality is an equivalence, but for NaN

Among elements two notions meet: being the same object, and being equal, which for numbers and booleans
is equality of doubles. Neither contains the other, since NaN is not equal to itself and an array is
equal to others. A value that is the same object as another one can stand in its place in every
comparison, however, and this is what makes the union of both transitive on elements, and so equality
on arrays. How deep a comparison may look decides only whether it answers.
-/

namespace CallScript.Value

variable {depth : Nat} {a b c : Value}

mutual

theorem same_symm : ∀ {a b : Value}, same a b = true → same b a = true
  | number .., number .., h => by
    simp only [same, Bool.and_eq_true, beq_iff_eq] at h ⊢
    exact ⟨h.1.symm, h.2.symm⟩
  | string _, string _, h => by
    simp only [same, beq_iff_eq] at h ⊢
    exact h.symm
  | boolean _, boolean _, h => by
    simp only [same, beq_iff_eq] at h ⊢
    exact h.symm
  | array .., array .., h => by
    simp only [same, Bool.and_eq_true, beq_iff_eq] at h ⊢
    exact ⟨h.1.symm, sameAll_symm h.2⟩
  | native .., native .., h => by
    simp only [same, Bool.and_eq_true, beq_iff_eq] at h ⊢
    exact ⟨h.1.symm, h.2.symm⟩
  | closure .., closure .., h => by
    simp only [same, beq_iff_eq] at h ⊢
    exact h.symm

theorem sameAll_symm : ∀ {as bs : List Value}, sameAll as bs = true → sameAll bs as = true
  | [], [], _ => rfl
  | _ :: _, _ :: _, h => by
    rw [sameAll, Bool.and_eq_true] at h ⊢
    exact ⟨same_symm h.1, sameAll_symm h.2⟩

end

theorem same_comm (a b : Value) : same a b = same b a :=
  Bool.eq_iff_iff.2 ⟨same_symm, same_symm⟩

mutual

theorem same_trans : ∀ {a b c : Value}, same a b = true → same b c = true → same a c = true
  | number .., number .., number .., h, h' => by
    simp only [same, Bool.and_eq_true, beq_iff_eq] at h h' ⊢
    exact ⟨h.1.trans h'.1, h.2.trans h'.2⟩
  | string _, string _, string _, h, h' => by
    simp only [same, beq_iff_eq] at h h' ⊢
    exact h.trans h'
  | boolean _, boolean _, boolean _, h, h' => by
    simp only [same, beq_iff_eq] at h h' ⊢
    exact h.trans h'
  | array .., array .., array .., h, h' => by
    simp only [same, Bool.and_eq_true, beq_iff_eq] at h h' ⊢
    exact ⟨h.1.trans h'.1, sameAll_trans h.2 h'.2⟩
  | native .., native .., native .., h, h' => by
    simp only [same, Bool.and_eq_true, beq_iff_eq] at h h' ⊢
    exact ⟨h.1.trans h'.1, h.2.trans h'.2⟩
  | closure .., closure .., closure .., h, h' => by
    simp only [same, beq_iff_eq] at h h' ⊢
    exact h.trans h'

theorem sameAll_trans : ∀ {as bs cs : List Value},
    sameAll as bs = true → sameAll bs cs = true → sameAll as cs = true
  | [], [], [], _, _ => rfl
  | _ :: _, _ :: _, _ :: _, h, h' => by
    rw [sameAll, Bool.and_eq_true] at h h' ⊢
    exact ⟨same_trans h.1 h'.1, sameAll_trans h.2 h'.2⟩

end

theorem sameAll_iff_forall₂ : ∀ {as bs : List Value},
    sameAll as bs = true ↔ List.Forall₂ (fun a b => same a b = true) as bs
  | [], [] => by simp [sameAll]
  | [], _ :: _ => by simp [sameAll]
  | _ :: _, [] => by simp [sameAll]
  | a :: as, b :: bs => by
    rw [sameAll, Bool.and_eq_true, List.forall₂_cons, sameAll_iff_forall₂]

theorem kind_eq_of_same (h : same a b = true) : a.kind = b.kind := by
  cases a <;> cases b <;> first | rfl | cases h

/-- What a number or a boolean counts as among elements. -/
def magnitude? : Value → Option Float
  | number x _ => some x
  | boolean b => some (ofBool b)
  | _ => none

theorem magnitude?_eq_of_same (h : same a b = true) : a.magnitude? = b.magnitude? := by
  cases a <;> cases b <;> try cases h
  all_goals first | rfl | skip
  · simp only [same, Bool.and_eq_true, beq_iff_eq] at h
    rw [magnitude?, magnitude?, Float.toBits_inj.1 h.1]
  · simp only [same, beq_iff_eq] at h
    rw [h]

theorem magnitude?_of_function (h : a.kind = .function) : a.magnitude? = none := by
  cases a <;> first | rfl | cases h

/-- As elements the two count as equal. -/
def Meets (depth : Nat) (a b : Value) : Prop :=
  same a b = true ∨ matches? depth a b = some true

theorem allPairs_eq_true_iff {ask : Value → Value → Option Bool} : ∀ {xs ys : List Value},
    xs.length = ys.length →
      (allPairs ask xs ys = some true ↔ List.Forall₂ (fun x y => ask x y = some true) xs ys)
  | [], [], _ => by simp [allPairs]
  | x :: xs, y :: ys, h => by
    rw [List.forall₂_cons, ← allPairs_eq_true_iff (Nat.succ.inj h), allPairs]
    cases ask x y with
    | none => simp
    | some answer => cases answer <;> simp

theorem matches?_array_eq_true_iff {i j : Nat} {xs ys : List Value} :
    matches? (depth + 1) (array i xs) (array j ys) = some true ↔ List.Forall₂ (Meets depth) xs ys := by
  by_cases hlength : xs.length = ys.length
  · have hask (x y : Value) :
        (if sameObject x y then some true else matches? depth x y) = some true ↔ Meets depth x y := by
      rw [sameObject_eq, Meets]
      split <;> simp [*]
    simp only [matches?, hlength, ne_eq, not_true, if_false, allPairs_eq_true_iff hlength, hask]
  · refine iff_of_false ?_ fun hall => hlength hall.length_eq
    simp [matches?, hlength]

theorem ofBool_beq (p q : Bool) : (ofBool p == ofBool q) = (p == q) := by
  cases p <;> cases q <;> decide

theorem matches?_of_magnitude : ∀ {a b : Value} {x y : Float},
    a.magnitude? = some x → b.magnitude? = some y → matches? depth a b = some (x == y)
  | number .., number .., _, _, rfl, rfl => by unfold matches?; rfl
  | number .., boolean _, _, _, rfl, rfl => by unfold matches?; rfl
  | boolean _, number .., _, _, rfl, rfl => by unfold matches?; rfl
  | boolean _, boolean _, _, _, rfl, rfl => by unfold matches?; rw [ofBool_beq]

theorem matches?_string (s t : String) : matches? depth (string s) (string t) = some (s == t) := by
  unfold matches?; rfl

theorem matches?_function (h : a.kind = .function) : matches? depth a b = some (same a b) := by
  unfold matches?
  cases a <;> cases b <;> first | rfl | cases h

/-- The ways in which two values come to be equal. -/
inductive Agree : Nat → Value → Value → Prop where
  | magnitude {n u v x y} (left : u.magnitude? = some x) (right : v.magnitude? = some y)
      (equal : (x == y) = true) : Agree n u v
  | string {n s} : Agree n (string s) (string s)
  | array {n i j xs ys} (each : List.Forall₂ (Meets n) xs ys) : Agree (n + 1) (array i xs) (array j ys)
  | function {n u v} (isFunction : u.kind = .function) (once : same u v = true) : Agree n u v

theorem agree_of_matches? (h : matches? depth a b = some true) : Agree depth a b := by
  fun_cases matches? depth a b with
  | case1 | case2 | case3 | case4 =>
    rw [matches?_of_magnitude rfl rfl, Option.some.injEq] at h
    exact .magnitude rfl rfl h
  | case5 s t =>
    rw [matches?_string, Option.some.injEq, beq_iff_eq] at h
    exact h ▸ .string
  | case6 _ _ _ _ _ hlength =>
    unfold matches? at h
    simp [hlength] at h
  | case7 => simp [matches?] at h
  | case8 => exact .array (matches?_array_eq_true_iff.1 h)
  | case9 _ _ _ numbers _ _ booleans strings arrays =>
    have honce : same a b = true := by simpa [matches?] using h
    have isFunction : a.kind = .function := by
      cases a <;> cases b <;> first | rfl | cases honce | skip
      · exact (numbers _ _ _ _ rfl rfl).elim
      · exact (strings _ _ rfl rfl).elim
      · exact (booleans _ _ rfl rfl).elim
      · exact (arrays _ _ _ _ rfl rfl).elim
    exact .function isFunction honce

theorem matches?_eq_true_iff : matches? depth a b = some true ↔ Agree depth a b := by
  refine ⟨agree_of_matches?, fun h => ?_⟩
  cases h with
  | magnitude left right equal => rw [matches?_of_magnitude left right, equal]
  | string => simp [matches?_string]
  | array each => exact matches?_array_eq_true_iff.2 each
  | function isFunction once => rw [matches?_function isFunction, once]

theorem allPairs_comm {ask ask' : Value → Value → Option Bool} (h : ∀ x y, ask x y = ask' y x) :
    ∀ xs ys, allPairs ask xs ys = allPairs ask' ys xs
  | [], [] => rfl
  | [], _ :: _ => rfl
  | _ :: _, [] => rfl
  | x :: xs, y :: ys => by rw [allPairs, allPairs, h x y, allPairs_comm h xs ys]

/-- It makes no difference which of two values stands first, not even to how deep one has to look. -/
theorem matches?_comm (depth : Nat) (a b : Value) : matches? depth a b = matches? depth b a := by
  induction depth generalizing a b with
  | zero => cases a <;> cases b <;> simp only [matches?, BEq.comm, same_comm, ne_comm]
  | succ depth ih =>
    have hask (x y : Value) :
        (if sameObject x y then some true else matches? depth x y) =
          if sameObject y x then some true else matches? depth y x := by
      rw [sameObject_eq, sameObject_eq, same_comm, ih]
    cases a <;> cases b <;> simp only [matches?, BEq.comm, same_comm]
    next xs _ ys => simp only [ne_comm, allPairs_comm hask xs ys]

theorem Agree.symm (h : Agree depth a b) : Agree depth b a := by
  rw [← matches?_eq_true_iff, matches?_comm, matches?_eq_true_iff]
  exact h

theorem forall₂_trans_of {R S T : Value → Value → Prop} (h : ∀ x y z, R x y → S y z → T x z) :
    ∀ {xs ys zs : List Value}, List.Forall₂ R xs ys → List.Forall₂ S ys zs → List.Forall₂ T xs zs
  | _, _, _, .nil, .nil => .nil
  | _, _, _, .cons head rest, .cons head' rest' =>
    .cons (h _ _ _ head head') (forall₂_trans_of h rest rest')

/-- A value may stand in the place of another one that is the same object. -/
theorem Agree.of_same {depth : Nat} {a b c : Value} (h : same a b = true) (h' : Agree depth b c) :
    Agree depth a c := by
  cases h' with
  | magnitude left right equal => exact .magnitude ((magnitude?_eq_of_same h).trans left) right equal
  | string =>
    cases a <;> first | cases h | skip
    exact matches?_eq_true_iff.1 (by simpa [matches?_string, same] using h)
  | @array below i j ys zs each =>
    cases a <;> first | cases h | skip
    next k xs =>
      rw [same, Bool.and_eq_true, sameAll_iff_forall₂] at h
      refine .array (forall₂_trans_of (fun x y z hxy hyz => ?_) h.2 each)
      rcases hyz with hyz | hyz
      · exact .inl (same_trans hxy hyz)
      · exact .inr (matches?_eq_true_iff.2 (.of_same hxy (matches?_eq_true_iff.1 hyz)))
  | function isFunction once =>
    exact .function ((kind_eq_of_same h).trans isFunction) (same_trans h once)
termination_by depth

theorem Agree.trans {depth : Nat} {a b c : Value} (h : Agree depth a b) (h' : Agree depth b c) :
    Agree depth a c := by
  cases h with
  | @magnitude _ _ _ x y left right equal =>
    cases h' with
    | @magnitude _ _ _ y' z left' right' equal' =>
      obtain rfl : y = y' := Option.some.inj (right.symm.trans left')
      exact .magnitude left right' (BEq.trans equal equal')
    | string | array each => cases right
    | function isFunction once => cases right.symm.trans (magnitude?_of_function isFunction)
  | string => exact h'
  | @array below i j xs ys each =>
    cases h' with
    | magnitude left => cases left
    | array each' =>
      refine .array (forall₂_trans_of (fun x y z hxy hyz => ?_) each each')
      simp only [Meets, matches?_eq_true_iff] at hxy hyz ⊢
      rcases hxy with hxy | hxy <;> rcases hyz with hyz | hyz
      · exact .inl (same_trans hxy hyz)
      · exact .inr (.of_same hxy hyz)
      · exact .inr (Agree.of_same (same_symm hyz) hxy.symm).symm
      · exact .inr (.trans hxy hyz)
    | function isFunction => cases isFunction
  | function isFunction once => exact .of_same once h'
termination_by depth

theorem allPairs_isSome {ask : Value → Value → Option Bool} :
    ∀ {xs ys : List Value}, (∀ x ∈ xs, ∀ y ∈ ys, (ask x y).isSome) → (allPairs ask xs ys).isSome
  | [], _, _ => by simp [allPairs]
  | _ :: _, [], _ => by simp [allPairs]
  | x :: xs, y :: ys, h => by
    have hhead := h x List.mem_cons_self y List.mem_cons_self
    have hrest : (allPairs ask xs ys).isSome := allPairs_isSome fun x' hx y' hy =>
      h x' (List.mem_cons_of_mem x hx) y' (List.mem_cons_of_mem y hy)
    rw [allPairs]
    split
    · exact hrest
    · exact hhead

theorem nesting_le_nestingAll : ∀ {vs : List Value} {v : Value}, v ∈ vs → v.nesting ≤ nestingAll vs
  | w :: ws, v, h => by
    rw [nestingAll]
    rcases List.mem_cons.1 h with rfl | h
    · exact Nat.le_max_left ..
    · exact (nesting_le_nestingAll h).trans (Nat.le_max_right ..)

/-- A comparison answers wherever it may look as deep as one of the values is. -/
theorem matches?_isSome (h : a.nesting ≤ depth) (b : Value) : (matches? depth a b).isSome := by
  induction depth generalizing a b with
  | zero => cases a <;> cases b <;> first | rfl | cases h
  | succ depth ih =>
    cases a <;> cases b <;> try rfl
    next i xs j ys =>
      rw [nesting, Nat.succ_le_succ_iff] at h
      simp only [matches?]
      split
      · rfl
      · refine allPairs_isSome fun x hx y _ => ?_
        split
        · rfl
        · exact ih ((nesting_le_nestingAll hx).trans h) y

def isNaN : Value → Bool
  | number x _ => x.isNaN
  | _ => false

theorem equals?_eq_true_iff :
    equals? depth a b = some true ↔ a.kind = b.kind ∧ Agree depth a b := by
  rw [equals?, ← matches?_eq_true_iff]
  split <;> simp [*]

/-- The law of elements: arrays are equal if those in one place are the same object or agree. -/
theorem equals?_array_eq_true_iff {i j : Nat} {xs ys : List Value} :
    equals? (depth + 1) (array i xs) (array j ys) = some true ↔
      List.Forall₂ (fun x y => same x y = true ∨ Agree depth x y) xs ys := by
  simp only [equals?, kind, if_true, matches?_array_eq_true_iff, ← matches?_eq_true_iff]
  rfl

theorem equals?_comm (depth : Nat) (a b : Value) : equals? depth a b = equals? depth b a := by
  simp only [equals?, matches?_comm depth a b, eq_comm]

theorem equals?_trans (h : equals? depth a b = some true) (h' : equals? depth b c = some true) :
    equals? depth a c = some true := by
  rw [equals?_eq_true_iff] at h h' ⊢
  exact ⟨h.1.trans h'.1, h.2.trans h'.2⟩

theorem equals?_isSome (h : a.nesting ≤ depth) (b : Value) : (equals? depth a b).isSome := by
  rw [equals?]
  split
  · exact matches?_isSome h b
  · rfl

theorem beq_self_eq_not_isNaN (x : Float) : (x == x) = !x.isNaN := by
  rw [Float.isNaN_eq_decide_eq_nan, Bool.eq_iff_iff, Float.beq_self_iff]
  simp

theorem equals?_self (depth : Nat) (a : Value) : equals? (depth + 1) a a = some !a.isNaN := by
  rw [equals?, if_pos rfl]
  cases a with
  | number x => rw [matches?_of_magnitude rfl rfl, isNaN, beq_self_eq_not_isNaN]
  | string s => simp [matches?_string, isNaN]
  | boolean p => rw [matches?_of_magnitude rfl rfl, ofBool_beq, beq_self_eq_true]; rfl
  | array i xs =>
    exact matches?_array_eq_true_iff.2 (List.forall₂_same.2 fun v _ => .inl (same_refl v))
  | native op home => rw [matches?_function rfl, same_refl]; rfl
  | closure => rw [matches?_function rfl, same_refl]; rfl

/-- Equality is symmetric and transitive, and every value but NaN equals itself, an array of NaN
included. It answers if it may look deep enough, and then the same at every greater depth. Arrays are
equal if in every place of theirs there is the same object, or elements that agree: numbers and booleans
as doubles, strings by content, functions as objects, and arrays again by their elements. -/
theorem equality_is_equivalence :
    (∀ depth a b, equals? depth a b = equals? depth b a) ∧
      (∀ depth a b c, equals? depth a b = some true → equals? depth b c = some true →
        equals? depth a c = some true) ∧
      (∀ depth a, equals? (depth + 1) a a = some !a.isNaN) ∧
      (∀ depth a b, a.nesting ≤ depth → (equals? depth a b).isSome) ∧
      (∀ depth depth' a b answer, depth ≤ depth' → equals? depth a b = some answer →
        equals? depth' a b = some answer) ∧
      (∀ depth a b, equals? depth a b = some true ↔ a.kind = b.kind ∧ Agree depth a b) ∧
      ∀ depth i j xs ys, equals? (depth + 1) (array i xs) (array j ys) = some true ↔
        List.Forall₂ (fun x y => same x y = true ∨ Agree depth x y) xs ys :=
  ⟨equals?_comm, fun _ _ _ _ h h' => equals?_trans h h', equals?_self,
    fun _ _ b h => equals?_isSome h b, fun _ _ _ _ _ h h' => equals?_mono h h',
    fun _ _ _ => equals?_eq_true_iff, fun _ _ _ _ _ => equals?_array_eq_true_iff⟩

/-- The NaN of two divisions by zero, among elements that are equal in the one way or in the other. -/
theorem equality_is_equivalence_with_shared_nan :
    let first := array 1 [number (0 / 0) 0, boolean true]
    let second := array 2 [number (0 / 0) 0, number 1 0]
    let third := array 3 [number (0 / 0) 0, boolean true]
    equals? 1 first second = some true ∧ equals? 1 second third = some true ∧
      equals? 1 first third = some true := by
  intro first second third
  have h : equals? 1 first second = some true := by decide
  have h' : equals? 1 second third = some true := by decide
  exact ⟨h, h', equality_is_equivalence.2.1 1 first second third h h'⟩

example : equals? 0 (boolean true) (number 1 0) = some false := by decide

end CallScript.Value
