import CallScript.Proofs.Eval.Rules

/-!
# Steps of evaluation

Each function of the evaluator by an equation that tells what it does: what it leaves behind if it
does a single thing, and else which computations it runs in which order. Later proofs use these
equations and never open the functions themselves.
-/

namespace CallScript

variable {rounds depth : Nat} {sub : Expr → Run Value} {forms : Registry} {frame : FrameId}
variable {w : World}

namespace World

theorem define_eq (id : FrameId) (name : String) (v : Value) (w : World) :
    define id name v w = (Outcome.value ()).result (w.withBinding id name v) :=
  rfl

theorem addFrame_eq (bindings : Bindings) (around : FrameId) (w : World) :
    (modifyGet (addFrame bindings (some around)) : Run FrameId) w =
      (Outcome.value w.frames.size).result (w.withFrame bindings around) :=
  rfl

theorem fetch_eq (id : FrameId) (name : String) (w : World) :
    fetch id name w = match lookup w.frames name id with
      | some v => (Outcome.value v).result w
      | none => (Outcome.fault (.undefined name)).result w := by
  have hfetch : fetch id name w = (match lookup w.frames name id with
    | some v => (pure v : Run Value)
    | none => throw (Halt.fault (.undefined name))) w := rfl
  rw [hfetch]
  cases lookup w.frames name id <;> rfl

theorem fetch_of_means {name : String} {v : Value} (h : Means w.frames name frame v) :
    fetch frame name w = (Outcome.value v).result w := by
  rw [fetch_eq, h.lookup_eq]

theorem fetch_of_meaningless {name : String} (h : ∀ v, ¬ Means w.frames name frame v) :
    fetch frame name w = (Outcome.fault (.undefined name)).result w := by
  rw [fetch_eq, lookup_eq_none_iff.2 h]

end World

namespace Form

theorem noteShadowing_eq (forms : Registry) (name : String) (w : World) :
    noteShadowing forms name w = (Outcome.value ()).result (w.withWarning forms name) := by
  rw [noteShadowing, World.withWarning]
  split <;> rfl

theorem makeClosure_eq (forms : Registry) (frame : FrameId) (params : List String) (body : Expr)
    (w : World) :
    makeClosure forms frame params body w =
      (Outcome.value (.closure w.nextId params body frame forms)).result
        (w.withObject.withEvent (.notice (.closureMade params))) :=
  rfl

/-- Taking expressions in turn is evaluating all of them and keeping the last value. -/
theorem inTurn_eq (sub : Expr → Run Value) (last : Value) (parts : List Expr) :
    inTurn sub last parts = parts.mapM sub >>= fun values => pure (values.getLastD last) := by
  induction parts generalizing last with
  | nil => simp [inTurn]
  | cons e rest ih =>
    have hlast : ∀ (v : Value) (values : List Value),
        (v :: values).getLastD last = values.getLastD v := by
      intro v values
      exact List.getLastD_cons ..
    simp only [inTurn, ih, List.mapM_cons, bind_assoc, pure_bind, hlast]

theorem run_conditional (test yes no : Expr) :
    run rounds sub forms frame .conditional [test, yes, no] =
      sub test >>= fun v => if v.isFalse then sub no else sub yes :=
  rfl

theorem run_badConditional {parts : List Expr} (h : parts.length ≠ 3) :
    run rounds sub forms frame .conditional parts = throw (.fault .badConditional) := by
  unfold run
  split <;> simp_all

theorem run_loop_zero (test body : Expr) :
    run 0 sub forms frame .loop [test, body] = throw .outOfRounds :=
  rfl

/-- After a round the rest of a loop is the same loop, with one round less to go. -/
theorem run_loop_succ (test body : Expr) :
    run (rounds + 1) sub forms frame .loop [test, body] =
      sub test >>= fun v =>
        if v.isFalse then pure (.boolean false)
        else sub body >>= fun _ => run rounds sub forms frame .loop [test, body] := by
  have hrun : ∀ rounds, run rounds sub forms frame .loop [test, body] =
      repeatWhile (sub test) (sub body) rounds >>= fun _ => pure (.boolean false) :=
    fun _ => rfl
  rw [hrun, hrun, repeatWhile, bind_assoc]
  congr
  funext v
  split
  · rw [pure_bind]
  · rw [bind_assoc]

theorem run_badLoop {parts : List Expr} (h : parts.length ≠ 2) :
    run rounds sub forms frame .loop parts = throw (.fault .badLoop) := by
  unfold run
  split <;> simp_all

theorem run_sequence (parts : List Expr) :
    run rounds sub forms frame .sequence parts =
      parts.mapM sub >>= fun values => pure (values.getLastD (.boolean false)) :=
  inTurn_eq sub (.boolean false) parts

theorem run_definition (name : String) (e : Expr) :
    run rounds sub forms frame .definition [.word name, e] =
      noteShadowing forms name >>= fun _ => sub e >>= fun v =>
        World.define frame name v >>= fun _ => pure v :=
  rfl

theorem run_badDefinition {parts : List Expr} (h : ∀ name e, parts ≠ [.word name, e]) :
    run rounds sub forms frame .definition parts = throw (.fault .badDefinition) := by
  unfold run
  split <;> simp_all

theorem run_missingBody :
    run rounds sub forms frame .abstraction [] = throw (.fault .missingBody) :=
  rfl

theorem mapM_word?_eq_some_iff {params : List Expr} {names : List String} :
    params.mapM word? = some names ↔ params = names.map .word := by
  induction params generalizing names with
  | nil => cases names <;> simp
  | cons e rest ih =>
    simp only [List.mapM_cons, bind, Option.bind_eq_some_iff, pure, Option.some.injEq, ih]
    constructor
    · rintro ⟨name, hname, more, rfl, rfl⟩
      cases e <;> cases hname
      rfl
    · intro h
      cases names with
      | nil => cases h
      | cons name more =>
        simp only [List.map_cons, List.cons.injEq] at h
        obtain ⟨rfl, rfl⟩ := h
        exact ⟨name, rfl, more, rfl, rfl⟩

/-- Parameters are words, or one of them is none. -/
theorem words_or_badParameter (params : List Expr) :
    (∃ names : List String, params = names.map .word) ∨
      ∃ param ∈ params, ∀ name, param ≠ .word name := by
  induction params with
  | nil => exact .inl ⟨[], rfl⟩
  | cons e rest ih =>
    by_cases hword : ∃ name, e = .word name
    · obtain ⟨name, rfl⟩ := hword
      rcases ih with ⟨names, rfl⟩ | ⟨param, hmem, hparam⟩
      · exact .inl ⟨name :: names, rfl⟩
      · exact .inr ⟨param, List.mem_cons_of_mem _ hmem, hparam⟩
    · exact .inr ⟨e, List.mem_cons_self .., fun name h => hword ⟨name, h⟩⟩

theorem run_abstraction (params : List Expr) (body : Expr) :
    run rounds sub forms frame .abstraction (params ++ [body]) =
      match params.mapM word? with
      | none => throw (.fault .badParameter)
      | some names => makeClosure forms frame names body := by
  have hlast : (params ++ [body]).getLast? = some body := List.getLast?_concat ..
  have hfront : (params ++ [body]).dropLast = params := List.dropLast_concat
  cases hnames : params.mapM word? <;> simp only [run, hlast, hfront, hnames]

theorem run_closure (names : List String) (body : Expr) :
    run rounds sub forms frame .abstraction (names.map .word ++ [body]) =
      makeClosure forms frame names body := by
  rw [run_abstraction, mapM_word?_eq_some_iff.2 rfl]

theorem run_badParameter {params : List Expr} (h : ∃ param ∈ params, ∀ name, param ≠ .word name)
    (body : Expr) :
    run rounds sub forms frame .abstraction (params ++ [body]) = throw (.fault .badParameter) := by
  rw [run_abstraction]
  cases hnames : params.mapM word? with
  | none => rfl
  | some names =>
    obtain ⟨param, hmem, hparam⟩ := h
    rw [mapM_word?_eq_some_iff] at hnames
    subst hnames
    obtain ⟨name, -, rfl⟩ := List.mem_map.1 hmem
    exact absurd rfl (hparam name)

end Form

theorem formOf_eq_none_iff {operator : Expr} :
    eval.formOf forms operator = none ↔ NamesNoForm forms operator := by
  cases operator <;> simp [eval.formOf, NamesNoForm]

theorem namesNoForm_or (forms : Registry) (operator : Expr) :
    NamesNoForm forms operator ∨
      ∃ name form, operator = .word name ∧ forms.lookup name = some form := by
  cases operator with
  | word name =>
    cases h : forms.lookup name with
    | none => exact .inl fun name' h' => by cases h'; exact h
    | some form => exact .inr ⟨name, form, rfl, h⟩
  | _ => exact .inl nofun

theorem eval_form {name : String} {form : Form} (h : forms.lookup name = some form)
    (parts : List Expr) :
    eval rounds (depth + 1) forms frame (.apply (.word name) parts) =
      form.run rounds (eval rounds depth forms frame) forms frame parts := by
  simp only [eval, eval.formOf, h]

theorem eval_call {operator : Expr} (h : NamesNoForm forms operator) (args : List Expr) :
    eval rounds (depth + 1) forms frame (.apply operator args) =
      eval rounds depth forms frame operator >>= fun function =>
        if function.kind = .function then
          args.mapM (eval rounds depth forms frame) >>= fun values =>
            applyValue depth (eval rounds depth) function values
        else throw (.fault .notFunction) := by
  simp only [eval, formOf_eq_none_iff.2 h]
  congr
  funext function
  by_cases hkind : function.kind = .function <;> simp [hkind, throw_bind]

theorem applyValue_closure {id : Nat} {params : List String} {body : Expr} {args : List Value}
    {call : Registry → FrameId → Expr → Run Value} (h : args.length = params.length) :
    applyValue depth call (.closure id params body frame forms) args =
      modifyGet (World.addFrame (Bindings.ofPairs (params.zip args)) (some frame)) >>=
        fun inner => call forms inner body := by
  simp [applyValue, h]

theorem applyValue_wrongCount {id : Nat} {params : List String} {body : Expr} {args : List Value}
    {call : Registry → FrameId → Expr → Run Value} (h : args.length ≠ params.length) :
    applyValue depth call (.closure id params body frame forms) args =
      throw (.fault (.closureArity params.length args.length)) := by
  simp [applyValue, h, throw_bind]

end CallScript
