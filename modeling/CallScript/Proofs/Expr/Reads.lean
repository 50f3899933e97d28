import CallScript.Proofs.Eval.Step

/-!
# What expressions read

A word in an expression may ask for what its name means, or it may only be a name: that of the form in
a call of one, the name in a definition, or a parameter. An expression that never reads a name has
words of that name in the latter places only.
-/

namespace CallScript

namespace Form

/-- The parts in a call of the form that are names if they are words. -/
def named : Form → List Expr → List Expr
  | definition, parts => parts.take 1
  | abstraction, parts => parts.dropLast
  | _, _ => []

/-- The other parts in a call of the form. -/
def others : Form → List Expr → List Expr
  | definition, parts => parts.drop 1
  | abstraction, parts => parts.getLast?.toList
  | _, parts => parts

theorem mem_of_mem_named {form : Form} {parts : List Expr} {e : Expr} (h : e ∈ form.named parts) :
    e ∈ parts := by
  cases form with
  | definition => exact List.mem_of_mem_take h
  | abstraction => exact List.dropLast_subset _ h
  | _ => cases h

theorem mem_of_mem_others {form : Form} {parts : List Expr} {e : Expr} (h : e ∈ form.others parts) :
    e ∈ parts := by
  cases form with
  | definition => exact List.mem_of_mem_drop h
  | abstraction => exact List.mem_of_getLast? (Option.mem_toList.1 h)
  | _ => exact h

end Form

namespace Expr

/-- No word of a hidden name in the expression asks for what the name means. -/
inductive NeverReads (hidden : String → Prop) (forms : Registry) : Expr → Prop where
  | literal {v} : NeverReads hidden forms (.literal v)
  | word {name} (shown : ¬ hidden name) : NeverReads hidden forms (.word name)
  | foreign {quoted plain} : NeverReads hidden forms (.foreign quoted plain)
  | form {name form parts} (known : forms.lookup name = some form)
      (named : ∀ e ∈ form.named parts, (∀ name, e ≠ .word name) → NeverReads hidden forms e)
      (others : ∀ e ∈ form.others parts, NeverReads hidden forms e) :
      NeverReads hidden forms (.apply (.word name) parts)
  | call {operator args} (noForm : NamesNoForm forms operator)
      (first : NeverReads hidden forms operator) (rest : ∀ e ∈ args, NeverReads hidden forms e) :
      NeverReads hidden forms (.apply operator args)

/-- The value is a literal in the expression. -/
inductive Holds (v : Value) : Expr → Prop where
  | literal : Holds v (.literal v)
  | operator {operator args} (inside : Holds v operator) : Holds v (.apply operator args)
  | arg {operator e args} (mem : e ∈ args) (inside : Holds v e) : Holds v (.apply operator args)

variable {hidden : String → Prop} {forms : Registry}

theorem NeverReads.others_of_form {name : String} {form : Form} {parts : List Expr}
    (h : NeverReads hidden forms (.apply (.word name) parts)) (known : forms.lookup name = some form) :
    ∀ e ∈ form.others parts, NeverReads hidden forms e := by
  cases h with
  | form known' named others =>
    rw [known, Option.some.injEq] at known'
    exact known' ▸ others
  | call noForm first rest =>
    rw [noForm name rfl] at known
    cases known

theorem NeverReads.of_call {operator : Expr} {args : List Expr}
    (h : NeverReads hidden forms (.apply operator args)) (noForm : NamesNoForm forms operator) :
    NeverReads hidden forms operator ∧ ∀ e ∈ args, NeverReads hidden forms e := by
  cases h with
  | form known =>
    rw [noForm _ rfl] at known
    cases known
  | call _ first rest => exact ⟨first, rest⟩

theorem neverReads_of_none (forms : Registry) : ∀ e, NeverReads (fun _ => False) forms e
  | .literal _ => .literal
  | .word _ => .word id
  | .foreign .. => .foreign
  | .apply operator args => by
    have hargs : ∀ e ∈ args, NeverReads (fun _ => False) forms e :=
      fun e _ => neverReads_of_none forms e
    rcases namesNoForm_or forms operator with noForm | ⟨name, form, rfl, known⟩
    · exact .call noForm (neverReads_of_none forms operator) hargs
    · refine .form known (fun e he _ => ?_) fun e he => hargs e (Form.mem_of_mem_others he)
      exact hargs e (Form.mem_of_mem_named he)

theorem Holds.sizeOf_lt {v : Value} {e : Expr} (h : Holds v e) : sizeOf v < sizeOf e := by
  induction h with
  | literal => simp
  | operator _ ih => simp only [apply.sizeOf_spec]; omega
  | @arg operator e args mem inside ih =>
    have := List.sizeOf_lt_of_mem mem
    simp only [apply.sizeOf_spec]
    omega

end Expr

end CallScript
