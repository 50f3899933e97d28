import CallScript.Proofs.Eval.Native
import CallScript.Proofs.Eval.Step
import CallScript.Proofs.Store.Yields
import Mathlib.Data.List.Basic

/-!
# What evaluation yields

In a proper world, evaluating an expression of the language in a frame that there is leaves a proper
world and, if it gives a value, one that refers only to what is there. It is never stopped by a fault
of the interpreter: that there is something to evaluate that is no expression cannot come about.
-/

namespace CallScript

open World

variable {rounds depth : Nat} {forms : Registry} {frame : FrameId} {w : World}

namespace World

theorem yields_freshId (hw : w.Proper) : Yields (fun w' id => id < w'.nextId) freshId w :=
  ⟨hw.withObject, Nat.lt_succ_self _⟩

theorem yields_note (hw : w.Proper) (event : Event) : Yields (fun _ _ => True) (note event) w :=
  ⟨hw.withEvent event, trivial⟩

end World

namespace Native

theorem yields_newNumber (hw : w.Proper) (x : Float) : Yields Has (newNumber x) w := by
  rw [newNumber]
  split
  · exact .bind (yields_freshId hw) fun id w' hw' hid => .pure hw'.proper (.number hid)
  · exact .pure hw (.number hw.kept)

theorem yields_newArray (hw : w.Proper) {elements : List Value} (h : ∀ v ∈ elements, w.Has v) :
    Yields Has (newArray elements) w := by
  refine .bind (yields_freshId hw) fun id w' hw' hid => ?_
  exact .pure hw'.proper (.array hid fun v hv => hw'.has (h v hv))

theorem yields_expectNumber (hw : w.Proper) (op : Native) (asked : Operand) (v : Value) :
    Yields (fun _ _ => True) (expectNumber op asked v) w := by
  cases v with
  | number x mark => exact .pure hw trivial
  | _ => exact .throw hw rfl

theorem yields_expectArray (hw : w.Proper) (op : Native) {v : Value} (hv : w.Has v) :
    Yields (fun w' elements => ∀ e ∈ elements, w'.Has e) (expectArray op v) w := by
  cases hv with
  | array made each => exact .pure hw each
  | _ => exact .throw hw rfl

theorem yields_arithmetic (hw : w.Proper) (op : Native) (asked : Operand)
    {compute : Float → Float → Run Value}
    (h : ∀ x y w', w'.Proper → Yields Has (compute x y) w') (a b : Value) :
    Yields Has (arithmetic op asked compute a b) w := by
  refine .bind (yields_expectNumber hw op asked a) fun x w₁ hw₁ _ => ?_
  refine .bind (yields_expectNumber hw₁.proper op asked b) fun y w₂ hw₂ _ => ?_
  exact h x y w₂ hw₂.proper

theorem yields_quotient (hw : w.Proper) (x y : Float) : Yields Has (quotient x y) w := by
  rw [quotient]
  split
  · exact .pure hw (.number hw.kept)
  · exact yields_newNumber hw _

theorem yields_comparison (hw : w.Proper) (op : Native) (numbers : Float → Float → Bool)
    (strings : String → String → Bool) (a b : Value) :
    Yields Has (comparison op numbers strings a b) w := by
  unfold comparison
  split
  · exact .pure hw .boolean
  · exact .pure hw .boolean
  · exact .throw hw rfl

theorem yields_elementAt (hw : w.Proper) {elements : List Value} (h : ∀ v ∈ elements, w.Has v)
    (x : Float) : Yields Has (elementAt elements x) w := by
  rw [elementAt]
  split
  · next v hv =>
    obtain ⟨index, -, hindex⟩ := Option.bind_eq_some_iff.1 hv
    exact .pure hw (h v (List.mem_of_getElem? hindex))
  · exact .throw hw rfl

theorem yields_printValue (hw : w.Proper) (depth : Nat) (writes : Bool) {v : Value} (hv : w.Has v) :
    Yields Has (printValue depth writes v) w := by
  cases writes with
  | false => exact .pure hw hv
  | true =>
    cases htext : v.text? depth false with
    | none =>
      have hprint : printValue depth true v = throw .tooDeep := by
        simp only [printValue, htext, if_true, throw_bind]
      rw [hprint]
      exact .throw hw rfl
    | some text =>
      have hprint : printValue depth true v = note (.line text) >>= fun _ => pure v := by
        simp only [printValue, htext, if_true]
      rw [hprint]
      exact .bind (yields_note hw _) fun _ w' hw' _ => .pure hw'.proper (hw'.has hv)

/-- A native function gives a value out of what is there, if it gives one. -/
theorem yields_call (hw : w.Proper) (depth : Nat) (op : Native) {args : List Value}
    (h : ∀ v ∈ args, w.Has v) : Yields Has (op.call depth args) w := by
  revert h
  fun_cases call depth op args with
  | case1 s t => exact fun _ => .pure hw .string
  | case2 a b | case3 a b | case4 a b =>
    exact fun _ => yields_arithmetic hw _ _ (fun x y w' hw' => yields_newNumber hw' _) a b
  | case5 a b => exact fun _ => yields_arithmetic hw _ _ (fun x y w' hw' => yields_quotient hw' x y) a b
  | case6 a b answer hanswer => exact fun _ => .pure hw .boolean
  | case8 a b | case9 a b => exact fun _ => yields_comparison hw _ _ _ a b
  | case10 writes v => exact fun h => yields_printValue hw depth writes (h v (by simp))
  | case11 elements => exact yields_newArray hw
  | case12 v =>
    intro h
    refine .bind (yields_expectArray hw _ (h v (by simp))) fun elements w₁ hw₁ _ => ?_
    exact .pure hw₁.proper (.number hw₁.proper.kept)
  | case13 v i =>
    intro h
    refine .bind (yields_expectArray hw _ (h v (by simp))) fun elements w₁ hw₁ helements => ?_
    refine .bind (yields_expectNumber hw₁.proper _ _ i) fun x w₂ hw₂ _ => ?_
    exact yields_elementAt hw₂.proper (fun e he => hw₂.has (helements e he)) x
  | _ => exact fun _ => .throw hw rfl

end Native

theorem yields_fetch (hw : w.Proper) (frame : FrameId) (name : String) :
    Yields Has (fetch frame name) w := by
  have hfetch := fetch_eq frame name w
  cases h : lookup w.frames name frame with
  | some v =>
    rw [h] at hfetch
    exact .of_value hfetch hw.grows (hw.lookup (means_of_lookup h))
  | none =>
    rw [h] at hfetch
    rw [Yields, hfetch]
    exact ⟨hw.grows, rfl⟩

namespace Form

variable {sub : Expr → Run Value} {parts : List Expr}

/-- In every world that this one grows into, the computation yields what is there. -/
def YieldsFrom (w : World) (sub : Expr → Run Value) (e : Expr) : Prop :=
  ∀ w', w.Grows w' → Yields Has (sub e) w'

theorem YieldsFrom.later {w' : World} {e : Expr} (h : YieldsFrom w sub e) (hw : w.Grows w') :
    YieldsFrom w' sub e :=
  fun w'' hw'' => h w'' (hw.trans hw'')

theorem yields_noteShadowing (hw : w.Proper) (forms : Registry) (name : String) :
    Yields (fun _ _ => True) (noteShadowing forms name) w :=
  .of_value (noteShadowing_eq forms name w) (hw.withWarning forms name) trivial

theorem yields_conditional (hw : w.Proper) (hparts : ∀ e ∈ parts, YieldsFrom w sub e) :
    Yields Has (run rounds sub forms frame .conditional parts) w := by
  by_cases hshape : parts.length = 3
  · obtain ⟨test, yes, no, rfl⟩ := List.length_eq_three.1 hshape
    rw [run_conditional]
    refine .bind (hparts test (by simp) w hw.grows) fun v w' hw' _ => ?_
    split
    · exact hparts no (by simp) w' hw'
    · exact hparts yes (by simp) w' hw'
  · rw [run_badConditional hshape]
    exact .throw hw rfl

theorem yields_loop (hw : w.Proper) (hparts : ∀ e ∈ parts, YieldsFrom w sub e) :
    Yields Has (run rounds sub forms frame .loop parts) w := by
  by_cases hshape : parts.length = 2
  · obtain ⟨test, body, rfl⟩ := List.length_eq_two.1 hshape
    induction rounds generalizing w with
    | zero =>
      rw [run_loop_zero]
      exact .throw hw rfl
    | succ rounds ih =>
      rw [run_loop_succ]
      refine .bind (hparts test (by simp) w hw.grows) fun v w₁ hw₁ _ => ?_
      split
      · exact .pure hw₁.proper .boolean
      · refine .bind (hparts body (by simp) w₁ hw₁) fun _ w₂ hw₂ _ => ?_
        exact ih hw₂.proper fun e he => (hparts e he).later (hw₁.trans hw₂)
  · rw [run_badLoop hshape]
    exact .throw hw rfl

theorem yields_sequence (hw : w.Proper) (hparts : ∀ e ∈ parts, YieldsFrom w sub e) :
    Yields Has (run rounds sub forms frame .sequence parts) w := by
  rw [run_sequence]
  refine .bind (.mapM hw hparts fun v w₁ w₂ hw₂ hv => hw₂.has hv) fun values w' hw' hvalues => ?_
  refine .pure hw'.proper ?_
  rcases List.eq_nil_or_concat values with rfl | ⟨before, last, rfl⟩
  · exact .boolean
  · rw [List.concat_eq_append, List.getLastD_concat]
    exact hvalues last (by simp)

theorem yields_definition (hw : w.Proper) (hparts : ∀ e ∈ parts, YieldsFrom w sub e) :
    Yields Has (run rounds sub forms frame .definition parts) w := by
  by_cases hshape : ∃ name e, parts = [.word name, e]
  · obtain ⟨name, e, rfl⟩ := hshape
    rw [run_definition]
    refine .bind (yields_noteShadowing hw forms name) fun _ w₁ hw₁ _ => ?_
    refine .bind (hparts e (by simp) w₁ hw₁) fun v w₂ hw₂ hv => ?_
    have hdefine := hw₂.proper.withBinding frame name hv
    refine .bind (.of_value (P := fun w _ => w.Has v) (define_eq frame name v w₂) hdefine ?_) ?_
    · exact hdefine.has hv
    · exact fun _ w₃ hw₃ hv => .pure hw₃.proper hv
  · rw [run_badDefinition fun name e h => hshape ⟨name, e, h⟩]
    exact .throw hw rfl

theorem yields_abstraction (hw : w.Proper) (hframe : frame < w.frames.size)
    (hparts : ∀ e ∈ parts, e.Within w.bounds) :
    Yields Has (run rounds sub forms frame .abstraction parts) w := by
  rcases List.eq_nil_or_concat parts with rfl | ⟨params, body, rfl⟩
  · exact .throw hw rfl
  · rw [List.concat_eq_append] at hparts ⊢
    rw [run_abstraction]
    split
    · exact .throw hw rfl
    · refine .bind (yields_freshId hw) fun id w₁ hw₁ hid => ?_
      refine .bind (yields_note hw₁.proper _) fun _ w₂ hw₂ _ => ?_
      refine .pure hw₂.proper (.closure ?_ (hw₁.trans hw₂ |>.frame_lt hframe) ?_)
      · exact Nat.lt_of_lt_of_le hid hw₂.le.objects
      · exact (hparts body (by simp)).mono (hw₁.trans hw₂).le

end Form

/-- Evaluated in a proper world and in a frame that is there, an expression yields what is there. -/
def YieldsWithin (sub : Registry → FrameId → Expr → Run Value) : Prop :=
  ∀ forms frame e w, w.Proper → frame < w.frames.size → e.Within w.bounds →
    Yields Has (sub forms frame e) w

variable {sub : Registry → FrameId → Expr → Run Value}

theorem YieldsWithin.from (hsub : YieldsWithin sub) (hframe : frame < w.frames.size) {e : Expr}
    (he : e.Within w.bounds) : Form.YieldsFrom w (sub forms frame) e :=
  fun w' hw => hsub forms frame e w' hw.proper (hw.frame_lt hframe) (he.mono hw.le)

theorem yields_form (hsub : YieldsWithin sub) (hw : w.Proper) (hframe : frame < w.frames.size)
    {parts : List Expr} (hparts : ∀ e ∈ parts, e.Within w.bounds) (form : Form) :
    Yields Has (form.run rounds (sub forms frame) forms frame parts) w := by
  have hfrom : ∀ e ∈ parts, Form.YieldsFrom w (sub forms frame) e :=
    fun e he => hsub.from hframe (hparts e he)
  cases form with
  | conditional => exact Form.yields_conditional hw hfrom
  | loop => exact Form.yields_loop hw hfrom
  | sequence => exact Form.yields_sequence hw hfrom
  | definition => exact Form.yields_definition hw hfrom
  | abstraction => exact Form.yields_abstraction hw hframe hparts

theorem yields_applyValue (hsub : YieldsWithin sub) (hw : w.Proper) (depth : Nat) {v : Value}
    {args : List Value} (hv : w.Has v) (hargs : ∀ a ∈ args, w.Has a) :
    Yields Has (applyValue depth sub v args) w := by
  cases hv with
  | @native op home _ => exact Native.yields_call hw depth op hargs
  | @closure id params body frame forms made there inside =>
    by_cases hcount : args.length = params.length
    · rw [applyValue_closure hcount]
      have hpairs : ∀ pair ∈ params.zip args, w.Has pair.2 :=
        fun pair hpair => hargs _ (List.of_mem_zip hpair).2
      have hinner := hw.withFrame hpairs there
      have hsize : w.frames.size < (w.withFrame (Bindings.ofPairs (params.zip args)) frame).frames.size := by
        simp [withFrame]
      refine .bind (.of_value (P := fun w' inner => inner < w'.frames.size) (addFrame_eq _ frame w)
        hinner hsize) fun inner w' hw' hthere => ?_
      exact hsub forms inner body w' hw'.proper hthere (inside.mono hw'.le)
    · rw [applyValue_wrongCount hcount]
      exact .throw hw rfl
  | _ => exact .throw hw rfl

theorem yields_callOf (hsub : YieldsWithin (eval rounds depth)) (hw : w.Proper)
    (hframe : frame < w.frames.size) {operator : Expr} {args : List Expr}
    (hoperator : operator.Within w.bounds) (hargs : ∀ e ∈ args, e.Within w.bounds)
    (noForm : NamesNoForm forms operator) :
    Yields Has (eval rounds (depth + 1) forms frame (.apply operator args)) w := by
  rw [eval_call noForm]
  refine .bind (hsub forms frame operator w hw hframe hoperator) fun function w₁ hw₁ hfunction => ?_
  split
  · have hfrom : ∀ e ∈ args, Form.YieldsFrom w₁ (eval rounds depth forms frame) e :=
      fun e he => (hsub.from hframe (hargs e he)).later hw₁
    refine .bind (.mapM hw₁.proper hfrom fun v w₁ w₂ hw₂ hv => hw₂.has hv) ?_
    exact fun values w₂ hw₂ hvalues =>
      yields_applyValue hsub hw₂.proper depth (hw₂.has hfunction) hvalues
  · exact .throw hw₁.proper rfl

theorem eval_yieldsWithin (rounds depth : Nat) : YieldsWithin (eval rounds depth) := by
  induction depth with
  | zero => exact fun forms frame e w hw _ _ => .throw hw rfl
  | succ depth ih =>
    intro forms frame e w hw hframe he
    cases he with
    | literal inside => exact .pure hw inside
    | @word name => exact yields_fetch hw frame name
    | @apply operator args first rest =>
      rcases namesNoForm_or forms operator with noForm | ⟨name, form, rfl, known⟩
      · exact yields_callOf ih hw hframe first rest noForm
      · rw [eval_form known]
        exact yields_form ih hw hframe rest form

end CallScript
