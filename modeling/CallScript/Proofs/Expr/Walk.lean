import CallScript.Proofs.Grammar.Progress
import Mathlib.Data.List.Lex
import Mathlib.Order.WithBot

/-!
# Walks around a tree

A place in a tree is the way to it from the root, as the number of the child that is taken at each
step: the operator of a call is its child `0`, and the arguments follow. The walk around a tree visits
every node before it goes to anything below the node, and every call once more when it is done with
everything below. The visits come in the lexicographic order of their places, where leaving a call
counts as going to a place behind all children of the call.
-/

namespace CallScript.Expr

def isCall : Expr → Bool
  | apply .. => true
  | _ => false

theorem children_of_not_isCall {e : Expr} (h : e.isCall = false) : e.children = [] := by
  cases e with
  | apply operator args => cases h
  | _ => rfl

/-- The node at a place of a tree. -/
def at? (e : Expr) : (place : List Nat) → Option Expr
  | [] => some e
  | i :: place => e.children[i]?.bind fun child => child.at? place

/-- The node at a place has a sibling right behind it. -/
def followed (e : Expr) (place : List Nat) : Bool :=
  place.getLast?.any fun i => (e.at? (place.dropLast ++ [i + 1])).isSome

@[simp] theorem at?_nil (e : Expr) : e.at? [] = some e := rfl

theorem at?_cons (e : Expr) (i : Nat) (place : List Nat) :
    e.at? (i :: place) = e.children[i]?.bind fun child => child.at? place := rfl

@[simp] theorem followed_nil (e : Expr) : e.followed [] = false := rfl

theorem followed_concat (e : Expr) (parent : List Nat) (i : Nat) :
    e.followed (parent ++ [i]) = (e.at? (parent ++ [i + 1])).isSome := by
  simp [followed]

theorem followed_iff {e : Expr} {place : List Nat} : e.followed place = true ↔
    ∃ parent i, place = parent ++ [i] ∧ (e.at? (parent ++ [i + 1])).isSome = true := by
  constructor
  · intro h
    rcases List.eq_nil_or_concat place with rfl | ⟨parent, i, rfl⟩
    · cases h
    · exact ⟨parent, i, List.concat_eq_append, by rwa [List.concat_eq_append, followed_concat] at h⟩
  · rintro ⟨parent, i, rfl, h⟩
    rwa [followed_concat]

theorem followed_single (e : Expr) (i : Nat) :
    e.followed [i] = decide (i + 1 < e.children.length) := by
  rw [← List.nil_append [i], followed_concat, List.nil_append, at?_cons, Bool.eq_iff_iff]
  by_cases h : i + 1 < e.children.length <;> simp [h]

/-- Further down, whether a node is followed is up to the child that it is in. -/
theorem followed_cons {e child : Expr} {i j : Nat} (h : e.children[i]? = some child)
    (place : List Nat) : e.followed (i :: j :: place) = child.followed (j :: place) := by
  obtain ⟨parent, l, hplace⟩ : ∃ parent l, j :: place = parent ++ [l] :=
    ⟨_, _, (List.dropLast_concat_getLast (List.cons_ne_nil j place)).symm⟩
  rw [hplace, ← List.cons_append, followed_concat, followed_concat, List.cons_append, at?_cons, h,
    Option.bind_some]

/-- A visit on the walk around a tree: the walk comes to a node, or leaves it for good. -/
structure Visit where
  place : List Nat
  node : Expr
  leaving : Bool

namespace Visit

def under (i : Nat) (v : Visit) : Visit :=
  { v with place := i :: v.place }

/-- It is the last visit to the node: a call is left, or there is nothing below the node. -/
def isLast (v : Visit) : Bool :=
  v.leaving || !v.node.isCall

/-- What visits are ordered by: the place of the node, or one behind all of its children when it is
left. -/
def order (v : Visit) : List (WithTop Nat) :=
  v.place.map WithTop.some ++ if v.leaving then [⊤] else []

/-- The visit belongs on the walk around a tree: the node stands at its place there, and no node but
a call is visited for a second time. -/
def Belongs (e : Expr) (v : Visit) : Prop :=
  e.at? v.place = some v.node ∧ (v.leaving = true → v.node.isCall = true)

theorem under_inj {i j : Nat} {v w : Visit} : v.under i = w.under j ↔ i = j ∧ v = w := by
  cases v
  cases w
  simp [under, and_assoc]

@[simp] theorem place_under (i : Nat) (v : Visit) : (v.under i).place = i :: v.place := rfl

@[simp] theorem isLast_under (i : Nat) (v : Visit) : (v.under i).isLast = v.isLast := rfl

theorem order_under (i : Nat) (v : Visit) : (v.under i).order = WithTop.some i :: v.order := rfl

theorem belongs_under_iff {e : Expr} {i : Nat} {v : Visit} :
    (v.under i).Belongs e ↔ ∃ child, e.children[i]? = some child ∧ v.Belongs child := by
  simp only [Belongs, under, at?_cons, Option.bind_eq_some_iff]
  constructor
  · rintro ⟨⟨child, hchild, hnode⟩, hleaving⟩
    exact ⟨child, hchild, hnode, hleaving⟩
  · rintro ⟨child, hchild, hnode, hleaving⟩
    exact ⟨⟨child, hchild, hnode⟩, hleaving⟩

end Visit

mutual

/-- The walk around a tree. -/
def walk : Expr → List Visit
  | apply operator args =>
    ⟨[], apply operator args, false⟩ ::
      (operator.walk.map (Visit.under 0) ++ walkFrom 1 args ++ [⟨[], apply operator args, true⟩])
  | e => [⟨[], e, false⟩]

/-- The walks around siblings, the first of which is the child `i`. -/
def walkFrom (i : Nat) : List Expr → List Visit
  | [] => []
  | e :: rest => e.walk.map (Visit.under i) ++ walkFrom (i + 1) rest

end

@[simp] theorem walkFrom_nil (i : Nat) : walkFrom i [] = [] := rfl

theorem walkFrom_cons (i : Nat) (e : Expr) (rest : List Expr) :
    walkFrom i (e :: rest) = e.walk.map (Visit.under i) ++ walkFrom (i + 1) rest := rfl

/-- The walk comes to the root, goes through the children, and leaves the root if it is a call. -/
theorem walk_eq (e : Expr) : e.walk = ⟨[], e, false⟩ ::
    (walkFrom 0 e.children ++ if e.isCall then [⟨[], e, true⟩] else []) := by
  cases e with
  | apply operator args => simp only [walk, children, walkFrom_cons, isCall, if_true, Nat.zero_add]
  | _ => rfl

/-- A walk around siblings visits what the walks around each of them do. -/
theorem mem_walkFrom {v : Visit} {i : Nat} {es : List Expr} : v ∈ walkFrom i es ↔
    ∃ (j : Nat) (e : Expr) (w : Visit), es[j]? = some e ∧ w ∈ e.walk ∧ v = w.under (i + j) := by
  induction es generalizing i with
  | nil => simp
  | cons first rest ih =>
    rw [walkFrom_cons, List.mem_append, List.mem_map, ih]
    constructor
    · rintro (⟨w, hw, rfl⟩ | ⟨j, e, w, he, hw, rfl⟩)
      · exact ⟨0, first, w, rfl, hw, rfl⟩
      · exact ⟨j + 1, e, w, he, hw, by rw [Nat.add_assoc, Nat.add_comm 1]⟩
    · rintro ⟨_ | j, e, w, he, hw, rfl⟩
      · cases he
        exact .inl ⟨w, hw, rfl⟩
      · exact .inr ⟨j, e, w, he, hw, by rw [Nat.add_assoc, Nat.add_comm 1]⟩

theorem place_ne_nil_of_mem_walkFrom {v : Visit} {i : Nat} {es : List Expr} (h : v ∈ walkFrom i es) :
    v.place ≠ [] := by
  obtain ⟨j, e, w, -, -, rfl⟩ := mem_walkFrom.1 h
  exact List.cons_ne_nil _ _

theorem mem_walk_root {e node : Expr} {leaving : Bool} : ⟨[], node, leaving⟩ ∈ e.walk ↔
    node = e ∧ (leaving = true → e.isCall = true) := by
  have hbelow : (⟨[], node, leaving⟩ : Visit) ∉ walkFrom 0 e.children :=
    fun hmem => place_ne_nil_of_mem_walkFrom hmem rfl
  rw [walk_eq, List.mem_cons, List.mem_append, or_iff_right hbelow]
  cases leaving <;> cases e.isCall <;> simp

theorem mem_walk_under {e : Expr} {i : Nat} {v : Visit} : v.under i ∈ e.walk ↔
    ∃ child, e.children[i]? = some child ∧ v ∈ child.walk := by
  have hroot : v.under i ∉ if e.isCall then [(⟨[], e, true⟩ : Visit)] else [] := by
    split <;> simp [Visit.under]
  rw [walk_eq, List.mem_cons, List.mem_append, mem_walkFrom, or_iff_left hroot,
    or_iff_right (by simp [Visit.under])]
  constructor
  · rintro ⟨j, child, w, hchild, hw, h⟩
    rw [Nat.zero_add, Visit.under_inj] at h
    obtain ⟨rfl, rfl⟩ := h
    exact ⟨child, hchild, hw⟩
  · rintro ⟨child, hchild, hv⟩
    exact ⟨i, child, v, hchild, hv, by rw [Nat.zero_add]⟩

/-- The walk comes to every node, leaves every call, and makes no other visits. -/
theorem mem_walk {e : Expr} {v : Visit} : v ∈ e.walk ↔ v.Belongs e := by
  obtain ⟨place, node, leaving⟩ := v
  -- By induction on the place, not on the tree: each step of the place goes on in one child.
  induction place generalizing e with
  | nil =>
    rw [mem_walk_root, Visit.Belongs, at?_nil, Option.some.injEq, eq_comm]
    exact and_congr_right fun h => by rw [h]
  | cons i place ih =>
    change Visit.under i ⟨place, node, leaving⟩ ∈ e.walk ↔
      (Visit.under i ⟨place, node, leaving⟩).Belongs e
    rw [mem_walk_under, Visit.belongs_under_iff]
    exact exists_congr fun child => and_congr_right fun _ => ih

theorem length_walkFrom {es : List Expr} (i : Nat) (h : ∀ e ∈ es, e.walk.length = e.weight) :
    (walkFrom i es).length = weightAll es := by
  induction es generalizing i with
  | nil => rfl
  | cons e rest ih =>
    obtain ⟨hfirst, hrest⟩ := List.forall_mem_cons.1 h
    rw [walkFrom_cons, List.length_append, List.length_map, hfirst, ih (i + 1) hrest, weightAll_cons]

theorem sizeOf_lt_of_mem_children {e child : Expr} (h : child ∈ e.children) :
    sizeOf child < sizeOf e := by
  cases e with
  | apply operator args =>
    have hlt := List.sizeOf_lt_of_mem h
    simp only [children, List.cons.sizeOf_spec, apply.sizeOf_spec] at hlt ⊢
    omega
  | _ => cases h

/-- What holds of every node whose children it holds of holds of every tree. -/
theorem induction_children {motive : Expr → Prop}
    (step : ∀ e : Expr, (∀ child ∈ e.children, motive child) → motive e) (e : Expr) : motive e :=
  step e fun child _ => induction_children step child
termination_by sizeOf e
decreasing_by exact sizeOf_lt_of_mem_children ‹_›

/-- The walks around siblings are in order if each of them is. -/
theorem pairwise_walkFrom {es : List Expr} (i : Nat)
    (h : ∀ e ∈ es, e.walk.Pairwise fun v w => v.order < w.order) :
    (walkFrom i es).Pairwise fun v w => v.order < w.order := by
  induction es generalizing i with
  | nil => exact List.Pairwise.nil
  | cons e rest ih =>
    obtain ⟨hfirst, hrest⟩ := List.forall_mem_cons.1 h
    rw [walkFrom_cons, List.pairwise_append]
    refine ⟨?_, ih (i + 1) hrest, fun v hv w hw => ?_⟩
    · rw [List.pairwise_map]
      refine hfirst.imp fun hlt => ?_
      rw [Visit.order_under, Visit.order_under]
      exact List.cons_lt_cons_iff.2 (.inr ⟨rfl, hlt⟩)
    · obtain ⟨v, -, rfl⟩ := List.mem_map.1 hv
      obtain ⟨j, child, w, -, -, rfl⟩ := mem_walkFrom.1 hw
      have hless : WithTop.some i < WithTop.some (i + 1 + j) := WithTop.coe_lt_coe.2 (by omega)
      rw [Visit.order_under, Visit.order_under]
      exact List.cons_lt_cons_iff.2 (.inl hless)

/-- The visits come in the order of their places, and a call is left behind all that is below it. -/
theorem pairwise_walk (e : Expr) : e.walk.Pairwise fun v w => v.order < w.order := by
  induction e using induction_children with
  | step e ih =>
    rw [walk_eq, List.pairwise_cons, List.pairwise_append]
    -- Coming to the root is first, as its order is empty, and leaving it last, as its order is `[⊤]`.
    refine ⟨fun v hv => ?_, pairwise_walkFrom 0 ih, ?_, fun v hv w hw => ?_⟩
    · rcases List.mem_append.1 hv with hbelow | hleave
      · obtain ⟨j, child, v, -, -, rfl⟩ := mem_walkFrom.1 hbelow
        exact List.nil_lt_cons _ _
      · split at hleave
        · cases List.mem_singleton.1 hleave
          exact List.nil_lt_cons _ _
        · cases hleave
    · split <;> simp
    · obtain ⟨j, child, v, -, -, rfl⟩ := mem_walkFrom.1 hv
      split at hw
      · cases List.mem_singleton.1 hw
        rw [Visit.order_under]
        exact List.cons_lt_cons_iff.2 (.inl (WithTop.coe_lt_top _))
      · cases hw

end CallScript.Expr
