import CallScript.Proofs.Eval.Step
import CallScript.Proofs.Store.Beside
import CallScript.Proofs.Store.Parallel

/-!
# Evaluating side by side

An expression evaluated in two worlds that are alike, in frames that stand for each other, comes to the
same in both: to values that are alike or to the same error, with the same entries added to the record,
and the two worlds are alike again. So do a call of a native function with arguments that are alike, and
a call of two functions that are alike. Both runs have the same limits.
-/

namespace CallScript

open World

variable {m : Matching} {start start' : World} {depth rounds : Nat} {forms : Registry}
variable {frame frame' : FrameId} {a a' b b' : Value} {args args' : List Value}

/-- Two computations that run in parallel from worlds that are alike. -/
abbrev Alongside (m : Matching) (start start' : World) {α α' : Type} (Q : α → α' → Prop) (x : Run α)
    (y : Run α') : Prop :=
  Parallel (Beside m start start') Q x y

namespace World

theorem parallel_freshId : Alongside m start start' m.object freshId freshId :=
  fun _ _ h => .ok h.withObject (h.nextObject 0)

theorem parallel_note {event : Event} (h : event.OfProgram) :
    Alongside m start start' (fun _ _ => True) (note event) (note event) :=
  .modify fun _ _ hw => hw.withEvent h

theorem parallel_newNumber (x : Float) :
    Alongside m start start' (Value.Alike m) (newNumber x) (newNumber x) := by
  rw [newNumber]
  split
  · exact .bind parallel_freshId fun i i' hi => .pure (.number hi)
  · exact .pure (.number m.kept)

theorem parallel_newArray {elements elements' : List Value}
    (h : List.Forall₂ (Value.Alike m) elements elements') :
    Alongside m start start' (Value.Alike m) (newArray elements) (newArray elements') :=
  .bind parallel_freshId fun _ _ hi => .pure (.array_of_forall₂ hi h)

theorem parallel_fetch (hframe : m.frame frame frame') {name : String} (shown : ¬ m.hidden name) :
    Alongside m start start' (Value.Alike m) (fetch frame name) (fetch frame' name) := by
  intro w w' h
  have hlookup := h.lookup shown hframe
  rw [fetch_eq, fetch_eq]
  cases hv : lookup w.frames name frame <;> cases hv' : lookup w'.frames name frame' <;>
    rw [hv, hv'] at hlookup
  · exact .error h
  · cases hlookup
  · cases hlookup
  · cases hlookup with
    | some halike => exact .ok h halike

end World

namespace Native

theorem parallel_expectNumber (op : Native) (asked : Operand) (h : a.Alike m a') :
    Alongside m start start' Eq (expectNumber op asked a) (expectNumber op asked a') := by
  cases h <;> first | exact .pure rfl | exact .throw _

theorem parallel_expectArray (op : Native) (h : a.Alike m a') :
    Alongside m start start' (List.Forall₂ (Value.Alike m)) (expectArray op a) (expectArray op a') := by
  cases h with
  | array same count each => exact .pure (List.forall₂_iff_zip.2 ⟨count, each⟩)
  | _ => exact .throw _

theorem parallel_arithmetic (op : Native) (asked : Operand) {compute : Float → Float → Run Value}
    (hcompute : ∀ x y, Alongside m start start' (Value.Alike m) (compute x y) (compute x y))
    (ha : a.Alike m a') (hb : b.Alike m b') :
    Alongside m start start' (Value.Alike m) (arithmetic op asked compute a b)
      (arithmetic op asked compute a' b') := by
  refine .bind (parallel_expectNumber op asked ha) fun x x' hx => ?_
  refine .bind (parallel_expectNumber op asked hb) fun y y' hy => ?_
  subst hx hy
  exact hcompute x y

theorem parallel_quotient (x y : Float) :
    Alongside m start start' (Value.Alike m) (quotient x y) (quotient x y) := by
  rw [quotient]
  split
  · exact .pure (.number m.kept)
  · exact parallel_newNumber _

theorem parallel_comparison (op : Native) (numbers : Float → Float → Bool)
    (strings : String → String → Bool) (ha : a.Alike m a') (hb : b.Alike m b') :
    Alongside m start start' (Value.Alike m) (comparison op numbers strings a b)
      (comparison op numbers strings a' b') := by
  cases ha with
  | number =>
    cases hb with
    | number => exact .pure .boolean
    | _ => exact .throw _
  | string =>
    cases hb with
    | string => exact .pure .boolean
    | _ => exact .throw _
  | _ =>
    simp only [comparison, hb.kind_eq]
    exact .throw _

theorem rel_getElem? {elements elements' : List Value}
    (h : List.Forall₂ (Value.Alike m) elements elements') (i : Nat) :
    Option.Rel (Value.Alike m) elements[i]? elements'[i]? := by
  induction h generalizing i with
  | nil => exact .none
  | cons hv _ ih =>
    cases i with
    | zero => exact .some hv
    | succ i => exact ih i

theorem parallel_elementAt {elements elements' : List Value}
    (h : List.Forall₂ (Value.Alike m) elements elements') (x : Float) :
    Alongside m start start' (Value.Alike m) (elementAt elements x) (elementAt elements' x) := by
  rw [elementAt, elementAt, h.length_eq]
  cases index? elements'.length x with
  | none => exact .throw _
  | some i =>
    have helement := rel_getElem? h i
    simp only [Option.bind_some]
    cases hv : elements[i]? <;> cases hv' : elements'[i]? <;> rw [hv, hv'] at helement
    · exact .throw _
    · cases helement
    · cases helement
    · cases helement with
      | some halike => exact .pure halike

theorem parallel_printValue (depth : Nat) (writes : Bool) (h : a.Alike m a') :
    Alongside m start start' (Value.Alike m) (printValue depth writes a)
      (printValue depth writes a') := by
  cases writes with
  | false => exact .pure h
  | true =>
    simp only [printValue, if_true, h.text?_eq]
    cases a'.text? depth false with
    | none => exact .throw _
    | some text => exact .bind (parallel_note trivial) fun _ _ _ => .pure h

theorem call_wrongCount {op : Native} {n : Nat} (harity : op.arity = some n)
    (hcount : args.length ≠ n) :
    op.call depth args = throw (.fault (.nativeArity op n args.length)) := by
  unfold call
  split <;> simp_all [arity]

theorem parallel_unary {op : Native} (harity : op.arity = some 1)
    (h : List.Forall₂ (Value.Alike m) args args')
    (hcall : ∀ {a a'}, a.Alike m a' →
      Alongside m start start' (Value.Alike m) (op.call depth [a]) (op.call depth [a'])) :
    Alongside m start start' (Value.Alike m) (op.call depth args) (op.call depth args') := by
  by_cases hcount : args.length = 1
  · obtain ⟨a, rfl⟩ := List.length_eq_one_iff.1 hcount
    obtain _ | ⟨ha, _ | _⟩ := h
    exact hcall ha
  · rw [call_wrongCount harity hcount, call_wrongCount harity (h.length_eq ▸ hcount), h.length_eq]
    exact .throw _

theorem parallel_binary {op : Native} (harity : op.arity = some 2)
    (h : List.Forall₂ (Value.Alike m) args args')
    (hcall : ∀ {a a' b b'}, a.Alike m a' → b.Alike m b' →
      Alongside m start start' (Value.Alike m) (op.call depth [a, b]) (op.call depth [a', b'])) :
    Alongside m start start' (Value.Alike m) (op.call depth args) (op.call depth args') := by
  by_cases hcount : args.length = 2
  · obtain ⟨a, b, rfl⟩ := List.length_eq_two.1 hcount
    obtain _ | ⟨ha, _ | ⟨hb, _ | _⟩⟩ := h
    exact hcall ha hb
  · rw [call_wrongCount harity hcount, call_wrongCount harity (h.length_eq ▸ hcount), h.length_eq]
    exact .throw _

/-- A native function called with arguments that are alike. -/
theorem parallel_call (depth : Nat) (op : Native) (h : List.Forall₂ (Value.Alike m) args args') :
    Alongside m start start' (Value.Alike m) (op.call depth args) (op.call depth args') := by
  cases op with
  | add =>
    refine parallel_binary rfl h fun {a a' b b'} ha hb => ?_
    have harithmetic := @parallel_arithmetic m start start' _ _ _ _ .add .numberOrString _
      (fun x y => parallel_newNumber (x + y)) ha hb
    cases ha with
    | string =>
      cases hb with
      | string => exact .pure .string
      | _ => exact harithmetic
    | _ => exact harithmetic
  | subtract =>
    exact parallel_binary rfl h fun ha hb =>
      parallel_arithmetic _ _ (fun x y => parallel_newNumber _) ha hb
  | multiply =>
    exact parallel_binary rfl h fun ha hb =>
      parallel_arithmetic _ _ (fun x y => parallel_newNumber _) ha hb
  | divide => exact parallel_binary rfl h fun ha hb => parallel_arithmetic _ _ parallel_quotient ha hb
  | equal =>
    refine parallel_binary rfl h fun {a a' b b'} ha hb => ?_
    simp only [call, ha.equals?_eq depth hb]
    cases Value.equals? depth a' b' with
    | none => exact .throw _
    | some answer => exact .pure .boolean
  | less => exact parallel_binary rfl h fun ha hb => parallel_comparison _ _ _ ha hb
  | greater => exact parallel_binary rfl h fun ha hb => parallel_comparison _ _ _ ha hb
  | print writes => exact parallel_unary rfl h fun ha => parallel_printValue depth writes ha
  | array => exact parallel_newArray h
  | length =>
    refine parallel_unary rfl h fun ha => ?_
    refine .bind (parallel_expectArray _ ha) fun elements elements' helements => ?_
    rw [helements.length_eq]
    exact .pure (.number m.kept)
  | element =>
    refine parallel_binary rfl h fun ha hb => ?_
    refine .bind (parallel_expectArray _ ha) fun elements elements' helements => ?_
    refine .bind (parallel_expectNumber _ _ hb) fun x x' hx => ?_
    subst hx
    exact parallel_elementAt helements x

end Native

namespace Form

variable {sub sub' : Expr → Run Value} {parts : List Expr}

theorem parallel_noteShadowing (forms : Registry) (name : String) :
    Alongside m start start' (fun _ _ => True) (noteShadowing forms name) (noteShadowing forms name) :=
  fun w w' h => by
    rw [noteShadowing_eq, noteShadowing_eq]
    exact .ok (h.withWarning forms name) trivial

theorem parallel_conditional
    (hparts : ∀ e ∈ parts, Alongside m start start' (Value.Alike m) (sub e) (sub' e)) :
    Alongside m start start' (Value.Alike m) (run rounds sub forms frame .conditional parts)
      (run rounds sub' forms frame' .conditional parts) := by
  by_cases hshape : parts.length = 3
  · obtain ⟨test, yes, no, rfl⟩ := List.length_eq_three.1 hshape
    rw [run_conditional, run_conditional]
    refine .bind (hparts test (by simp)) fun v v' hv => ?_
    rw [hv.isFalse_eq]
    split
    · exact hparts no (by simp)
    · exact hparts yes (by simp)
  · rw [run_badConditional hshape, run_badConditional hshape]
    exact .throw _

theorem parallel_loop
    (hparts : ∀ e ∈ parts, Alongside m start start' (Value.Alike m) (sub e) (sub' e)) :
    Alongside m start start' (Value.Alike m) (run rounds sub forms frame .loop parts)
      (run rounds sub' forms frame' .loop parts) := by
  by_cases hshape : parts.length = 2
  · obtain ⟨test, body, rfl⟩ := List.length_eq_two.1 hshape
    induction rounds with
    | zero =>
      rw [run_loop_zero, run_loop_zero]
      exact .throw _
    | succ rounds ih =>
      rw [run_loop_succ, run_loop_succ]
      refine .bind (hparts test (by simp)) fun v v' hv => ?_
      rw [hv.isFalse_eq]
      split
      · exact .pure .boolean
      · exact .bind (hparts body (by simp)) fun _ _ _ => ih
  · rw [run_badLoop hshape, run_badLoop hshape]
    exact .throw _

theorem alike_getLastD {values values' : List Value}
    (h : List.Forall₂ (Value.Alike m) values values') {last last' : Value} (hlast : last.Alike m last') :
    (values.getLastD last).Alike m (values'.getLastD last') := by
  induction h generalizing last last' with
  | nil => exact hlast
  | cons hv _ ih =>
    rw [List.getLastD_cons, List.getLastD_cons]
    exact ih hv

theorem parallel_sequence
    (hparts : ∀ e ∈ parts, Alongside m start start' (Value.Alike m) (sub e) (sub' e)) :
    Alongside m start start' (Value.Alike m) (run rounds sub forms frame .sequence parts)
      (run rounds sub' forms frame' .sequence parts) := by
  rw [run_sequence, run_sequence]
  exact .bind (.mapM hparts) fun values values' hvalues => .pure (alike_getLastD hvalues .boolean)

theorem parallel_definition (hframe : m.frame frame frame')
    (hparts : ∀ e ∈ others .definition parts,
      Alongside m start start' (Value.Alike m) (sub e) (sub' e)) :
    Alongside m start start' (Value.Alike m) (run rounds sub forms frame .definition parts)
      (run rounds sub' forms frame' .definition parts) := by
  by_cases hshape : ∃ name e, parts = [.word name, e]
  · obtain ⟨name, e, rfl⟩ := hshape
    rw [run_definition, run_definition]
    refine .bind (parallel_noteShadowing forms name) fun _ _ _ => ?_
    refine .bind (hparts e (by simp [others])) fun v v' hv => ?_
    refine .bind (Q := fun _ _ => True) ?_ fun _ _ _ => .pure hv
    exact fun w w' h => .ok (h.withBinding hframe name hv) trivial
  · have hshape : ∀ name e, parts ≠ [.word name, e] := fun name e h => hshape ⟨name, e, h⟩
    rw [run_badDefinition hshape, run_badDefinition hshape]
    exact .throw _

theorem parallel_abstraction (hframe : m.frame frame frame')
    (hparts : ∀ e ∈ others .abstraction parts, e.Kept m forms) :
    Alongside m start start' (Value.Alike m) (run rounds sub forms frame .abstraction parts)
      (run rounds sub' forms frame' .abstraction parts) := by
  rcases List.eq_nil_or_concat parts with rfl | ⟨params, body, rfl⟩
  · exact .throw _
  · rw [List.concat_eq_append] at hparts ⊢
    rw [run_abstraction, run_abstraction]
    split
    · exact .throw _
    · have hbody := hparts body (by simp [others])
      refine .bind parallel_freshId fun i i' hi => ?_
      refine .bind (parallel_note trivial) fun _ _ _ => ?_
      exact .pure (.closure hi hframe hbody.quiet hbody.held)

end Form

/-- Evaluators that run in parallel on whatever two runs can evaluate side by side. -/
def EvaluatesAlongside (m : Matching) (start start' : World)
    (sub : Registry → FrameId → Expr → Run Value) : Prop :=
  ∀ {forms frame frame' e}, m.frame frame frame' → Expr.Kept m forms e →
    Alongside m start start' (Value.Alike m) (sub forms frame e) (sub forms frame' e)

variable {sub : Registry → FrameId → Expr → Run Value}

/-- Two functions that are alike, called with arguments that are alike. -/
theorem parallel_applyValue (hsub : EvaluatesAlongside m start start' sub) (depth : Nat)
    (hfunction : a.Alike m a') (hargs : List.Forall₂ (Value.Alike m) args args') :
    Alongside m start start' (Value.Alike m) (applyValue depth sub a args)
      (applyValue depth sub a' args') := by
  cases hfunction with
  | @native op home => exact Native.parallel_call depth op hargs
  | @closure id id' params body home home' forms same there quiet held =>
    by_cases hcount : args.length = params.length
    · rw [applyValue_closure hcount, applyValue_closure (hargs.length_eq ▸ hcount)]
      refine .bind (Q := m.frame) (fun w w' h => ?_) fun inner inner' hinner => ?_
      · rw [addFrame_eq, addFrame_eq]
        exact .ok (h.withFrame params hargs there) h.frame_size
      · exact hsub hinner ⟨quiet, held⟩
    · rw [applyValue_wrongCount hcount, applyValue_wrongCount (hargs.length_eq ▸ hcount),
        hargs.length_eq]
      exact .throw _
  | _ => exact .throw _

theorem parallel_form (hsub : EvaluatesAlongside m start start' sub) (hframe : m.frame frame frame')
    {form : Form} {parts : List Expr} (hparts : ∀ e ∈ form.others parts, e.Kept m forms) :
    Alongside m start start' (Value.Alike m) (form.run rounds (sub forms frame) forms frame parts)
      (form.run rounds (sub forms frame') forms frame' parts) := by
  have heach : ∀ e ∈ form.others parts,
      Alongside m start start' (Value.Alike m) (sub forms frame e) (sub forms frame' e) :=
    fun e he => hsub hframe (hparts e he)
  cases form with
  | conditional => exact Form.parallel_conditional heach
  | loop => exact Form.parallel_loop heach
  | sequence => exact Form.parallel_sequence heach
  | definition => exact Form.parallel_definition hframe heach
  | abstraction => exact Form.parallel_abstraction hframe hparts

theorem parallel_callOf (hsub : EvaluatesAlongside m start start' (eval rounds depth))
    (hframe : m.frame frame frame') {operator : Expr} {args : List Expr}
    (hcall : Expr.Kept m forms (.apply operator args)) (noForm : NamesNoForm forms operator) :
    Alongside m start start' (Value.Alike m)
      (eval rounds (depth + 1) forms frame (.apply operator args))
      (eval rounds (depth + 1) forms frame' (.apply operator args)) := by
  obtain ⟨hfirst, hrest⟩ := hcall.quiet.of_call noForm
  have heach : ∀ e ∈ args, Alongside m start start' (Value.Alike m)
      (eval rounds depth forms frame e) (eval rounds depth forms frame' e) :=
    fun e he => hsub hframe ⟨hrest e he, fun v hv => hcall.held v (.arg he hv)⟩
  rw [eval_call noForm, eval_call noForm]
  refine .bind (hsub hframe ⟨hfirst, fun v hv => hcall.held v (.operator hv)⟩) fun f f' hf => ?_
  rw [hf.kind_eq]
  split
  · exact .bind (.mapM heach) fun values values' hvalues => parallel_applyValue hsub depth hf hvalues
  · exact .throw _

theorem evaluatesAlongside (m : Matching) (start start' : World) (rounds depth : Nat) :
    EvaluatesAlongside m start start' (eval rounds depth) := by
  induction depth with
  | zero => exact fun _ _ => .throw _
  | succ depth ih =>
    intro forms frame frame' e hframe he
    cases e with
    | literal v => exact .pure (he.held v .literal)
    | word name =>
      cases he.quiet with
      | word shown => exact parallel_fetch hframe shown
    | foreign quoted plain => exact .throw _
    | apply operator args =>
      rcases namesNoForm_or forms operator with noForm | ⟨name, form, rfl, known⟩
      · exact parallel_callOf ih hframe he noForm
      · rw [eval_form known, eval_form known]
        refine parallel_form ih hframe fun e hmem => ⟨he.quiet.others_of_form known e hmem, ?_⟩
        exact fun v hv => he.held v (.arg (Form.mem_of_mem_others hmem) hv)

end CallScript
