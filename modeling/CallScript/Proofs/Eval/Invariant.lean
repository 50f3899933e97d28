import CallScript.Proofs.Eval.Native
import CallScript.Proofs.Eval.Step
import CallScript.Proofs.Store.Invariant

/-!
# Evaluation keeps invariants

Evaluation makes values only in ways that an invariant allows: it gives literals and what names mean,
joins strings, computes numbers, and makes arrays of values and functions of expressions. So evaluating
an expression with the invariant keeps it, whether it gives a value or is stopped.
-/

namespace CallScript

open World

variable {κ : Type} [Preorder κ] {inv : Invariant κ} {k : κ}

theorem keeps_fetch (frame : FrameId) (name : String) : inv.Keeps inv.value k (fetch frame name) := by
  intro w hw
  have hfetch := fetch_eq frame name w
  cases h : lookup w.frames name frame with
  | some v =>
    simp only [h] at hfetch
    refine ⟨k, le_refl k, by rwa [stateAfter_of_ok hfetch], fun a w' ha => ?_⟩
    cases hfetch.symm.trans ha
    exact hw.lookup h
  | none =>
    simp only [h] at hfetch
    refine ⟨k, le_refl k, by rwa [stateAfter_of_error hfetch], fun a w' ha => ?_⟩
    cases hfetch.symm.trans ha

namespace Native

theorem keeps_newNumber (x : Float) : inv.Keeps inv.value k (newNumber x) := by
  by_cases hnan : x.isNaN
  · refine .made (.number x) (fun w => ⟨w.withObject, ?_, rfl, rfl⟩) (inv.newNumber x)
    rw [newNumber, if_pos hnan]
    rfl
  · rw [newNumber, if_neg hnan]
    exact .pure (inv.number x)

theorem keeps_newArray {elements : List Value} (h : ∀ v ∈ elements, inv.value k v) :
    inv.Keeps inv.value k (newArray elements) :=
  .made (.array · elements) (fun w => ⟨w.withObject, rfl, rfl, rfl⟩)
    fun hknown => inv.newArray hknown h

theorem keeps_expectNumber (op : Native) (asked : Operand) (v : Value) :
    inv.Keeps (fun _ _ => True) k (expectNumber op asked v) := by
  cases v with
  | number x mark => exact .pure trivial
  | _ => exact .throw _

theorem keeps_expectArray (op : Native) {v : Value} (hv : inv.value k v) :
    inv.Keeps (fun k' elements => ∀ e ∈ elements, inv.value k' e) k (expectArray op v) := by
  cases v with
  | array id elements => exact .pure (inv.elements hv)
  | _ => exact .throw _

theorem keeps_arithmetic (op : Native) (asked : Operand) {compute : Float → Float → Run Value}
    (h : ∀ x y k', inv.Keeps inv.value k' (compute x y)) (a b : Value) :
    inv.Keeps inv.value k (arithmetic op asked compute a b) := by
  refine (keeps_expectNumber op asked a).bind fun x _ _ _ => ?_
  exact (keeps_expectNumber op asked b).bind fun y k' _ _ => h x y k'

theorem keeps_quotient (x y : Float) : inv.Keeps inv.value k (quotient x y) := by
  rw [quotient]
  split
  · exact .pure (inv.number _)
  · exact keeps_newNumber _

theorem keeps_comparison (op : Native) (numbers : Float → Float → Bool)
    (strings : String → String → Bool) (a b : Value) :
    inv.Keeps inv.value k (comparison op numbers strings a b) := by
  unfold comparison
  split
  · exact .pure (inv.boolean _)
  · exact .pure (inv.boolean _)
  · exact .throw _

theorem keeps_elementAt {elements : List Value} (h : ∀ v ∈ elements, inv.value k v) (x : Float) :
    inv.Keeps inv.value k (elementAt elements x) := by
  rw [elementAt]
  split
  · next v hv =>
    obtain ⟨index, -, hindex⟩ := Option.bind_eq_some_iff.1 hv
    exact .pure (h v (List.mem_of_getElem? hindex))
  · exact .throw _

theorem keeps_printValue (depth : Nat) (writes : Bool) {v : Value} (hv : inv.value k v) :
    inv.Keeps inv.value k (printValue depth writes v) := by
  rw [printValue]
  cases writes with
  | false => exact .pure hv
  | true =>
    cases v.text? depth false with
    | none =>
      exact (Invariant.Keeps.throw (P := fun _ _ => True) _).bind fun _ k' hle _ =>
        .pure (inv.value_mono hle hv)
    | some text => exact (Invariant.Keeps.note _).bind fun _ k' hle _ => .pure (inv.value_mono hle hv)

theorem keeps_call (depth : Nat) (op : Native) {args : List Value} (h : ∀ v ∈ args, inv.value k v) :
    inv.Keeps inv.value k (op.call depth args) := by
  revert h
  fun_cases call depth op args with
  | case1 s t =>
    exact fun h => .pure (inv.join (h (.string s) (by simp)) (h (.string t) (by simp)))
  | case2 a b | case3 a b | case4 a b =>
    exact fun _ => keeps_arithmetic _ _ (fun x y k' => keeps_newNumber _) a b
  | case5 a b => exact fun _ => keeps_arithmetic _ _ (fun x y k' => keeps_quotient x y) a b
  | case6 a b answer hanswer => exact fun _ => .pure (inv.boolean answer)
  | case8 a b | case9 a b => exact fun _ => keeps_comparison _ _ _ a b
  | case10 writes v => exact fun h => keeps_printValue depth writes (h v (by simp))
  | case11 elements => exact keeps_newArray
  | case12 v =>
    intro h
    exact (keeps_expectArray _ (h v (by simp))).bind fun elements _ _ _ => .pure (inv.number _)
  | case13 v i =>
    intro h
    refine (keeps_expectArray _ (h v (by simp))).bind fun elements k₁ hle₁ helements => ?_
    refine (keeps_expectNumber _ _ i).bind fun x k₂ hle₂ _ => keeps_elementAt ?_ x
    exact fun e he => inv.value_mono hle₂ (helements e he)
  | _ => exact fun _ => .throw _

end Native

namespace Form

variable {rounds : Nat} {sub : Expr → Run Value} {forms : Registry} {frame : FrameId}
variable {parts : List Expr}

/-- Evaluating the expression keeps the invariant, whatever more is known by then. -/
def SubKeeps (inv : Invariant κ) (k : κ) (sub : Expr → Run Value) (e : Expr) : Prop :=
  ∀ k', k ≤ k' → inv.Keeps inv.value k' (sub e)

theorem SubKeeps.mono {k' : κ} {e : Expr} (h : SubKeeps inv k sub e) (hle : k ≤ k') :
    SubKeeps inv k' sub e :=
  fun k'' hle' => h k'' (le_trans hle hle')

theorem keeps_conditional (hparts : ∀ e ∈ parts, SubKeeps inv k sub e) :
    inv.Keeps inv.value k (run rounds sub forms frame .conditional parts) := by
  by_cases hshape : parts.length = 3
  · obtain ⟨test, yes, no, rfl⟩ := List.length_eq_three.1 hshape
    rw [run_conditional]
    refine (hparts test (by simp) k (le_refl k)).bind fun v k' hle _ => ?_
    split
    · exact hparts no (by simp) k' hle
    · exact hparts yes (by simp) k' hle
  · rw [run_badConditional hshape]
    exact .throw _

theorem keeps_loop (hparts : ∀ e ∈ parts, SubKeeps inv k sub e) :
    inv.Keeps inv.value k (run rounds sub forms frame .loop parts) := by
  by_cases hshape : parts.length = 2
  · obtain ⟨test, body, rfl⟩ := List.length_eq_two.1 hshape
    -- By induction on the rounds: each begins with more known than the one before.
    induction rounds generalizing k with
    | zero =>
      rw [run_loop_zero]
      exact .throw _
    | succ rounds ih =>
      rw [run_loop_succ]
      refine (hparts test (by simp) k (le_refl k)).bind fun v k₁ hle₁ _ => ?_
      split
      · exact .pure (inv.boolean false)
      · refine (hparts body (by simp) k₁ hle₁).bind fun _ k₂ hle₂ _ => ?_
        exact ih fun e he => (hparts e he).mono (le_trans hle₁ hle₂)
  · rw [run_badLoop hshape]
    exact .throw _

theorem keeps_sequence (hparts : ∀ e ∈ parts, SubKeeps inv k sub e) :
    inv.Keeps inv.value k (run rounds sub forms frame .sequence parts) := by
  rw [run_sequence]
  refine (Invariant.Keeps.mapM hparts).bind fun values k' _ hvalues => .pure ?_
  rcases List.eq_nil_or_concat values with rfl | ⟨before, last, rfl⟩
  · exact inv.boolean false
  · rw [List.concat_eq_append, List.getLastD_concat]
    exact hvalues last (by simp)

theorem keeps_definition (hparts : ∀ e ∈ parts, SubKeeps inv k sub e) :
    inv.Keeps inv.value k (run rounds sub forms frame .definition parts) := by
  by_cases hshape : ∃ name e, parts = [.word name, e]
  · obtain ⟨name, e, rfl⟩ := hshape
    have hnote : inv.Keeps (fun _ _ => True) k (noteShadowing forms name) := by
      rw [noteShadowing]
      split
      · exact .note _
      · exact .pure trivial
    rw [run_definition]
    refine hnote.bind fun _ k₁ hle₁ _ => (hparts e (by simp) k₁ hle₁).bind fun v k₂ _ hv => ?_
    have hdefine : inv.Keeps (fun _ _ => True) k₂ (World.define frame name v) :=
      .modify fun _ hw => hw.withBinding hv frame name
    exact hdefine.bind fun _ _ hle _ => .pure (inv.value_mono hle hv)
  · rw [run_badDefinition fun name e h => hshape ⟨name, e, h⟩]
    exact .throw _

theorem keeps_abstraction (hparts : ∀ e ∈ parts, inv.expr k forms e) :
    inv.Keeps inv.value k (run rounds sub forms frame .abstraction parts) := by
  rcases List.eq_nil_or_concat parts with rfl | ⟨params, body, rfl⟩
  · exact .throw _
  · rw [List.concat_eq_append] at hparts ⊢
    rw [run_abstraction]
    cases params.mapM word? with
    | none => exact .throw _
    | some names =>
      refine .made (.closure · names body frame forms) ?_ fun hknown =>
        inv.newClosure names frame hknown (hparts body (by simp))
      exact fun w => ⟨_, makeClosure_eq forms frame names body w, rfl, rfl⟩

end Form

variable {rounds depth : Nat} {forms : Registry} {frame : FrameId}
variable {sub : Registry → FrameId → Expr → Run Value}

/-- Evaluating an expression that has the invariant keeps it. -/
def EvalKeeps (inv : Invariant κ) (sub : Registry → FrameId → Expr → Run Value) : Prop :=
  ∀ k forms frame e, inv.expr k forms e → inv.Keeps inv.value k (sub forms frame e)

theorem keeps_form (hsub : EvalKeeps inv sub) {parts : List Expr}
    (hparts : ∀ e ∈ parts, inv.expr k forms e) (form : Form) :
    inv.Keeps inv.value k (form.run rounds (sub forms frame) forms frame parts) := by
  have heach : ∀ e ∈ parts, Form.SubKeeps inv k (sub forms frame) e :=
    fun e he k' hle => hsub k' forms frame e (inv.expr_mono hle (hparts e he))
  cases form with
  | conditional => exact Form.keeps_conditional heach
  | loop => exact Form.keeps_loop heach
  | sequence => exact Form.keeps_sequence heach
  | definition => exact Form.keeps_definition heach
  | abstraction => exact Form.keeps_abstraction hparts

theorem keeps_applyValue (hsub : EvalKeeps inv sub) (depth : Nat) {v : Value} {args : List Value}
    (hv : inv.value k v) (hargs : ∀ a ∈ args, inv.value k a) :
    inv.Keeps inv.value k (applyValue depth sub v args) := by
  cases v with
  | native op home => exact Native.keeps_call depth op hargs
  | closure id params body frame forms =>
    by_cases hcount : args.length = params.length
    · rw [applyValue_closure hcount]
      have hpairs : ∀ pair ∈ Bindings.ofPairs (params.zip args), inv.value k pair.2 :=
        Bindings.forall_ofPairs fun pair hpair => hargs _ (List.of_mem_zip hpair).2
      have hinner : inv.Keeps (fun _ _ => True) k (modifyGet
          (World.addFrame (Bindings.ofPairs (params.zip args)) (some frame)) : Run FrameId) :=
        fun w hw => ⟨k, le_refl k, hw.push hpairs (some frame), fun _ _ _ => trivial⟩
      exact hinner.bind fun inner k' hle _ => hsub k' forms inner body (inv.expr_mono hle (inv.body hv))
    · rw [applyValue_wrongCount hcount]
      exact .throw _
  | _ => exact .throw _

/-- Evaluation keeps every invariant, whether it gives a value or is stopped. -/
theorem eval_keeps (inv : Invariant κ) (rounds depth : Nat) : EvalKeeps inv (eval rounds depth) := by
  induction depth with
  | zero => exact fun k forms frame e _ => .throw _
  | succ depth ih =>
    intro k forms frame e he
    cases e with
    | literal v => exact .pure (inv.literal he)
    | word name => exact keeps_fetch frame name
    | foreign => exact .throw _
    | apply operator args =>
      obtain ⟨hoperator, hargs⟩ := inv.parts he
      rcases namesNoForm_or forms operator with noForm | ⟨name, form, rfl, known⟩
      · rw [eval_call noForm]
        refine (ih k forms frame operator hoperator).bind fun function k₁ hle₁ hfunction => ?_
        split
        · refine (Invariant.Keeps.mapM fun e he k' hle => ?_).bind fun values k₂ hle₂ hvalues => ?_
          · exact ih k' forms frame e (inv.expr_mono (le_trans hle₁ hle) (hargs e he))
          · exact keeps_applyValue ih depth (inv.value_mono hle₂ hfunction) hvalues
        · exact .throw _
      · rw [eval_form known]
        exact keeps_form ih hargs form

end CallScript
