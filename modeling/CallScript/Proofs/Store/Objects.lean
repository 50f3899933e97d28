import CallScript.Proofs.Decimal.Integral
import CallScript.Proofs.Store.Invariant
import CallScript.Value.Equality

/-!
# One number, one object

Every array and every function gets the number that is next when it is made. So a catalogue can be kept
of what goes by which number: it only grows, and whatever programs come to is in it. Hence two values
that are the same object are the same value.
-/

namespace CallScript

/-- Which array or function goes by which number. -/
structure Catalogue where
  object : Nat → Option Value

namespace Catalogue

instance : Preorder Catalogue where
  le c c' := ∀ id v, c.object id = some v → c'.object id = some v
  le_refl _ _ _ h := h
  le_trans _ _ _ h h' id v hv := h' id v (h id v hv)

variable {c c' : Catalogue} {id : Nat} {v : Value}

def blank : Catalogue :=
  ⟨fun _ => none⟩

def adding (c : Catalogue) (id : Nat) (v : Value) : Catalogue :=
  ⟨fun i => if i = id then some v else c.object i⟩

/-- The numbers from there on are not taken. -/
def FreeFrom (c : Catalogue) (next : Nat) : Prop :=
  ∀ id, next ≤ id → c.object id = none

theorem object_adding (c : Catalogue) (id : Nat) (v : Value) : (c.adding id v).object id = some v :=
  if_pos rfl

theorem FreeFrom.le_adding (h : c.FreeFrom id) (v : Value) : c ≤ c.adding id v := by
  intro i w hw
  have hne : i ≠ id := fun hi => by
    rw [hi, h id (Nat.le_refl id)] at hw
    cases hw
  exact (if_neg hne).trans hw

theorem FreeFrom.adding (h : c.FreeFrom id) (v : Value) : (c.adding id v).FreeFrom (id + 1) := by
  intro i hi
  exact (if_neg (Nat.ne_of_gt hi)).trans (h i (Nat.le_of_succ_le hi))

end Catalogue

mutual

/-- Every array and every function in the value is in the catalogue, down to the bodies of functions. -/
inductive Value.Listed (c : Catalogue) : Value → Prop where
  | number {x mark} : Value.Listed c (.number x mark)
  | string {text} : Value.Listed c (.string text)
  | boolean {truth} : Value.Listed c (.boolean truth)
  | array {id elements} (entry : c.object id = some (.array id elements))
      (each : ∀ v ∈ elements, Value.Listed c v) : Value.Listed c (.array id elements)
  | native {op home} : Value.Listed c (.native op home)
  | closure {id params body frame forms}
      (entry : c.object id = some (.closure id params body frame forms))
      (inside : Expr.Listed c body) : Value.Listed c (.closure id params body frame forms)

/-- Every array and every function in the expression is in the catalogue. -/
inductive Expr.Listed (c : Catalogue) : Expr → Prop where
  | literal {v} (inside : Value.Listed c v) : Expr.Listed c (.literal v)
  | word {name} : Expr.Listed c (.word name)
  | foreign {quoted plain} : Expr.Listed c (.foreign quoted plain)
  | apply {operator args} (first : Expr.Listed c operator) (rest : ∀ e ∈ args, Expr.Listed c e) :
      Expr.Listed c (.apply operator args)

end

variable {c c' : Catalogue}

mutual

theorem Value.Listed.mono (hle : c ≤ c') {v : Value} : v.Listed c → v.Listed c'
  | .number => .number
  | .string => .string
  | .boolean => .boolean
  | .array entry each => .array (hle _ _ entry) fun v hv => (each v hv).mono hle
  | .native => .native
  | .closure entry inside => .closure (hle _ _ entry) (inside.mono hle)

theorem Expr.Listed.mono (hle : c ≤ c') {e : Expr} : e.Listed c → e.Listed c'
  | .literal inside => .literal (inside.mono hle)
  | .word => .word
  | .foreign => .foreign
  | .apply first rest => .apply (first.mono hle) fun e he => (rest e he).mono hle

end

/-- Values of one catalogue that are the same object are the same value. -/
theorem Value.Listed.eq_of_same {a b : Value} (ha : a.Listed c) (hb : b.Listed c)
    (h : Value.same a b = true) : a = b := by
  cases ha <;> cases hb <;> simp only [Value.same, Bool.and_eq_true, beq_iff_eq, Bool.false_eq_true] at h
  case number.number => rw [Decimal.toBits_injective h.1, h.2]
  case string.string => rw [h]
  case boolean.boolean => rw [h]
  case array.array entry _ _ _ entry' _ =>
    obtain ⟨rfl, -⟩ := h
    exact Option.some.inj (entry.symm.trans entry')
  case native.native => rw [h.1, h.2]
  case closure.closure entry _ _ _ _ _ _ entry' _ =>
    subst h
    exact Option.some.inj (entry.symm.trans entry')

/-- Whatever evaluation makes is in a catalogue that grows. -/
def Invariant.catalogued : Invariant Catalogue where
  value c v := v.Listed c
  expr c _ e := e.Listed c
  known := Catalogue.FreeFrom
  value_mono hle h := h.mono hle
  expr_mono hle h := h.mono hle
  literal h := by cases h; assumption
  parts h := by cases h; exact ⟨‹_›, ‹_›⟩
  elements h := by cases h; assumption
  body h := by cases h; assumption
  number _ := .number
  boolean _ := .boolean
  native _ _ := .native
  join _ _ := .string
  newNumber _ hfree := ⟨_, le_refl _, fun i hi => hfree i (Nat.le_of_succ_le hi), .number⟩
  newArray hfree each :=
    ⟨_, hfree.le_adding _, hfree.adding _,
      .array (Catalogue.object_adding ..) fun v hv => (each v hv).mono (hfree.le_adding _)⟩
  newClosure params frame hfree inside :=
    ⟨_, hfree.le_adding _, hfree.adding _,
      .closure (Catalogue.object_adding ..) (inside.mono (hfree.le_adding _))⟩

end CallScript
