import CallScript.Proofs.Eval.Deeper
import CallScript.Proofs.Eval.Hidden
import CallScript.Proofs.Eval.Invariant
import CallScript.Proofs.Eval.Operands
import CallScript.Proofs.Eval.Soundness

/-!
# Evaluation without loops

Only a loop can run forever. Where neither the expression nor the body of any function within reach calls
the form for loops, evaluation comes to an end whatever the functions do, and it is the same end however
many rounds a loop may take. Functions may call themselves or one another: each call takes a level of the
depth. That no loop is ever begun is an invariant of the values; frames out of reach need not have it, and
the evaluation is the same without what they bind.
-/

namespace CallScript

open World

namespace Expr

/-- No call in the expression is one of the form for loops. -/
inductive CallsNoLoop (forms : Registry) : Expr → Prop where
  | literal {v} : CallsNoLoop forms (.literal v)
  | word {name} : CallsNoLoop forms (.word name)
  | foreign {quoted plain} : CallsNoLoop forms (.foreign quoted plain)
  | apply {operator : Expr} {args : List Expr} (noLoop : ¬ NamesForm forms .loop operator)
      (first : CallsNoLoop forms operator) (rest : ∀ e ∈ args, CallsNoLoop forms e) :
      CallsNoLoop forms (.apply operator args)

end Expr

/-- No function in the value calls the form for loops, and none in the literals of its body does. -/
inductive Value.Loopless : Value → Prop where
  | number {x mark} : Loopless (.number x mark)
  | string {text} : Loopless (.string text)
  | boolean {b} : Loopless (.boolean b)
  | native {op home} : Loopless (.native op home)
  | array {id elements} (each : ∀ v ∈ elements, Loopless v) : Loopless (.array id elements)
  | closure {id : Nat} {params : List String} {body : Expr} {frame : FrameId} {forms : Registry}
      (plain : body.CallsNoLoop forms) (held : ∀ v, body.Holds v → Loopless v) :
      Loopless (.closure id params body frame forms)

/-- The expression calls no loop, and neither does any function in its literals. -/
structure Expr.Loopless (forms : Registry) (e : Expr) : Prop where
  plain : e.CallsNoLoop forms
  held : ∀ v, e.Holds v → v.Loopless

theorem Expr.Loopless.parts {forms : Registry} {operator : Expr} {args : List Expr}
    (h : Expr.Loopless forms (.apply operator args)) :
    Expr.Loopless forms operator ∧ ∀ e ∈ args, Expr.Loopless forms e := by
  obtain ⟨plain, held⟩ := h
  cases plain with
  | apply _ first rest =>
    exact ⟨⟨first, fun v hv => held v (.operator hv)⟩,
      fun e he => ⟨rest e he, fun v hv => held v (.arg he hv)⟩⟩

/-- That values call no loop, as an invariant. -/
def loopless : Invariant Unit where
  value _ v := v.Loopless
  expr _ forms e := e.Loopless forms
  known _ _ := True
  value_mono _ h := h
  expr_mono _ h := h
  literal h := h.held _ .literal
  parts h := h.parts
  elements h := by
    cases h with
    | array each => exact each
  body h := by
    cases h with
    | closure plain held => exact ⟨plain, held⟩
  number _ := .number
  boolean _ := .boolean
  native _ _ := .native
  join _ _ := .string
  newNumber _ _ := ⟨(), le_refl _, trivial, .number⟩
  newArray _ h := ⟨(), le_refl _, trivial, .array h⟩
  newClosure _ _ _ h := ⟨(), le_refl _, trivial, .closure h.plain h.held⟩

variable {α β γ : Type} {P : α → Prop} {Q : β → Prop}

/-- In a world without loops the computation does not run out of rounds, and leaves such a world. -/
structure Finishes (P : α → Prop) (x : Run α) : Prop where
  keeps : loopless.Keeps (fun _ => P) () x
  ends : ∀ w, loopless.OfWorld () w → ∀ w', x w ≠ .error .outOfRounds w'

namespace Finishes

/-- What always gives something does not run out of rounds. -/
theorem of_gives {x : Run α} (keeps : loopless.Keeps (fun _ => P) () x)
    (h : ∀ w, ∃ a w', x w = .ok a w') : Finishes P x := by
  refine ⟨keeps, fun w _ w' hend => ?_⟩
  obtain ⟨a, w₁, hx⟩ := h w
  rw [hx] at hend
  cases hend

theorem pure {a : α} (ha : P a) : Finishes P (pure a : Run α) :=
  of_gives (.pure ha) fun w => ⟨a, w, rfl⟩

theorem throw {halt : Halt} (h : halt ≠ .outOfRounds) : Finishes P (throw halt : Run α) :=
  ⟨.throw halt, fun _ _ _ hw => h (EStateM.Result.error.inj hw).1⟩

theorem fault (cause : Fault) : Finishes P (MonadExcept.throw (.fault cause) : Run α) :=
  .throw (by simp)

theorem bind {x : Run α} {f : α → Run β} (hx : Finishes P x) (hf : ∀ a, P a → Finishes Q (f a)) :
    Finishes Q (x >>= f) := by
  refine ⟨hx.keeps.bind fun a _ _ ha => (hf a ha).keeps, fun w hw w' hend => ?_⟩
  obtain ⟨_, -, hw₁, hvalue⟩ := hx.keeps w hw
  cases hxw : x w with
  | ok a w₁ =>
    rw [stateAfter_of_ok hxw] at hw₁
    have hrest : f a w₁ = .error .outOfRounds w' := by
      simpa only [Bind.bind, EStateM.bind, hxw] using hend
    exact (hf a (hvalue a w₁ hxw)).ends w₁ hw₁ w' hrest
  | error halt w₁ =>
    simp only [Bind.bind, EStateM.bind, hxw] at hend
    obtain ⟨rfl, -⟩ := EStateM.Result.error.inj hend
    exact hx.ends w hw w₁ hxw

theorem mapM {act : γ → Run α} {items : List γ} (h : ∀ item ∈ items, Finishes P (act item)) :
    Finishes (fun as => ∀ a ∈ as, P a) (items.mapM act) := by
  induction items with
  | nil => exact pure (by simp)
  | cons item rest ih =>
    obtain ⟨hitem, hrest⟩ := List.forall_mem_cons.1 h
    rw [List.mapM_cons]
    refine hitem.bind fun a ha => (ih hrest).bind fun more hmore => ?_
    exact pure (List.forall_mem_cons.2 ⟨ha, hmore⟩)

end Finishes

theorem Native.finishes_call (depth : Nat) (op : Native) {args : List Value}
    (h : ∀ v ∈ args, v.Loopless) : Finishes Value.Loopless (op.call depth args) := by
  refine ⟨keeps_call depth op h, fun w _ w' hend => ?_⟩
  by_cases hrefused : ∃ kind text, Refuses op args kind text
  · obtain ⟨kind, text, hrefused⟩ := hrefused
    obtain ⟨cause, hcall, -⟩ := @call_of_refuses op depth args kind text hrefused
    rw [hcall] at hend
    cases hend
  · have hothers : ∀ kind text, ¬ Refuses op args kind text :=
      fun kind text h => hrefused ⟨kind, text, h⟩
    rcases @gives_or_looksTooDeep op depth args w hothers with ⟨-, hcall⟩ | ⟨v, w₁, hcall, -⟩ <;>
      · rw [hcall] at hend
        cases hend

theorem finishes_fetch (frame : FrameId) (name : String) :
    Finishes Value.Loopless (fetch frame name) := by
  refine ⟨keeps_fetch frame name, fun w _ w' hend => ?_⟩
  rw [fetch_eq] at hend
  cases h : lookup w.frames name frame <;> rw [h] at hend <;> cases hend

namespace Form

variable {rounds : Nat} {sub : Expr → Run Value} {forms : Registry} {frame : FrameId}
variable {parts : List Expr}

theorem finishes_conditional (hparts : ∀ e ∈ parts, Finishes Value.Loopless (sub e)) :
    Finishes Value.Loopless (run rounds sub forms frame .conditional parts) := by
  by_cases hshape : parts.length = 3
  · obtain ⟨test, yes, no, rfl⟩ := List.length_eq_three.1 hshape
    rw [run_conditional]
    refine (hparts test (by simp)).bind fun v _ => ?_
    split
    · exact hparts no (by simp)
    · exact hparts yes (by simp)
  · rw [run_badConditional hshape]
    exact .fault _

theorem finishes_sequence (hparts : ∀ e ∈ parts, Finishes Value.Loopless (sub e)) :
    Finishes Value.Loopless (run rounds sub forms frame .sequence parts) := by
  rw [run_sequence]
  refine (Finishes.mapM hparts).bind fun values hvalues => .pure ?_
  rcases List.eq_nil_or_concat values with rfl | ⟨before, last, rfl⟩
  · exact .boolean
  · rw [List.concat_eq_append, List.getLastD_concat]
    exact hvalues last (by simp)

theorem finishes_definition (hparts : ∀ e ∈ parts, Finishes Value.Loopless (sub e)) :
    Finishes Value.Loopless (run rounds sub forms frame .definition parts) := by
  by_cases hshape : ∃ name e, parts = [.word name, e]
  · obtain ⟨name, e, rfl⟩ := hshape
    have hnote : Finishes (fun _ => True) (noteShadowing forms name) := by
      refine ⟨?_, fun w _ w' hend => ?_⟩
      · rw [noteShadowing]
        split
        · exact .note _
        · exact .pure trivial
      · rw [noteShadowing_eq] at hend
        cases hend
    rw [run_definition]
    refine hnote.bind fun _ _ => (hparts e (by simp)).bind fun v hv => ?_
    have hdefine : Finishes (fun _ => True) (World.define frame name v) :=
      .of_gives (.modify fun _ hw => hw.withBinding hv frame name) fun _ => ⟨_, _, rfl⟩
    exact hdefine.bind fun _ _ => .pure hv
  · rw [run_badDefinition fun name e h => hshape ⟨name, e, h⟩]
    exact .fault _

theorem finishes_abstraction (hparts : ∀ e ∈ parts, e.Loopless forms) :
    Finishes Value.Loopless (run rounds sub forms frame .abstraction parts) := by
  refine ⟨keeps_abstraction hparts, fun w _ w' hend => ?_⟩
  rcases List.eq_nil_or_concat parts with rfl | ⟨params, body, rfl⟩
  · cases hend
  · rw [List.concat_eq_append, run_abstraction] at hend
    cases hnames : params.mapM word? <;> rw [hnames] at hend <;> cases hend

end Form

variable {rounds depth : Nat} {forms : Registry} {frame : FrameId}
variable {sub : Registry → FrameId → Expr → Run Value}

/-- Evaluating an expression without loops comes to an end. -/
def EvalFinishes (sub : Registry → FrameId → Expr → Run Value) : Prop :=
  ∀ forms frame e, e.Loopless forms → Finishes Value.Loopless (sub forms frame e)

theorem finishes_form (hsub : EvalFinishes sub) {name : String} {form : Form} {parts : List Expr}
    (known : forms.lookup name = some form) (h : Expr.Loopless forms (.apply (.word name) parts)) :
    Finishes Value.Loopless (form.run rounds (sub forms frame) forms frame parts) := by
  have heach : ∀ e ∈ parts, Finishes Value.Loopless (sub forms frame e) :=
    fun e he => hsub forms frame e (h.parts.2 e he)
  cases form with
  | conditional => exact Form.finishes_conditional heach
  | loop =>
    cases h.plain with
    | apply noLoop => exact absurd ⟨name, rfl, known⟩ noLoop
  | sequence => exact Form.finishes_sequence heach
  | definition => exact Form.finishes_definition heach
  | abstraction => exact Form.finishes_abstraction h.parts.2

theorem finishes_applyValue (hsub : EvalFinishes sub) (depth : Nat) {v : Value} {args : List Value}
    (hv : v.Loopless) (hargs : ∀ a ∈ args, a.Loopless) :
    Finishes Value.Loopless (applyValue depth sub v args) := by
  cases hv with
  | native => exact Native.finishes_call depth _ hargs
  | @closure id params body frame forms plain held =>
    by_cases hcount : args.length = params.length
    · rw [applyValue_closure hcount]
      have hpairs : ∀ pair ∈ Bindings.ofPairs (params.zip args), pair.2.Loopless :=
        Bindings.forall_ofPairs fun pair hpair => hargs _ (List.of_mem_zip hpair).2
      have hinner : Finishes (fun _ => True) (modifyGet
          (World.addFrame (Bindings.ofPairs (params.zip args)) (some frame)) : Run FrameId) :=
        .of_gives (fun w hw => ⟨(), le_refl _, hw.push hpairs (some frame), fun _ _ _ => trivial⟩)
          fun _ => ⟨_, _, rfl⟩
      exact hinner.bind fun inner _ => hsub forms inner body ⟨plain, held⟩
    · rw [applyValue_wrongCount hcount]
      exact .fault _
  | _ => exact .fault _

/-- Without loops every evaluation comes to an end. The induction is on the depth: a call of a function
is evaluated one level down, however often the function has been called already. -/
theorem eval_finishes (rounds depth : Nat) : EvalFinishes (eval rounds depth) := by
  induction depth with
  | zero => exact fun forms frame e _ => .throw (by simp)
  | succ depth ih =>
    intro forms frame e he
    cases e with
    | literal v => exact .pure (he.held v .literal)
    | word name => exact finishes_fetch frame name
    | foreign => exact .fault _
    | apply operator args =>
      rcases namesNoForm_or forms operator with noForm | ⟨name, form, rfl, known⟩
      · rw [eval_call noForm]
        refine (ih forms frame operator he.parts.1).bind fun function hfunction => ?_
        split
        · refine (Finishes.mapM fun e hmem => ih forms frame e (he.parts.2 e hmem)).bind ?_
          exact fun values hvalues => finishes_applyValue ih depth hfunction hvalues
        · exact .fault _
      · rw [eval_form known]
        exact finishes_form ih known he

/-- A frame with the same parent, in which every name means the same and none is bound twice. -/
def Frame.once (frame : Frame) : Frame :=
  ⟨Bindings.ofPairs frame.bindings.reverse, frame.parent⟩

theorem Frame.lookup_once (frame : Frame) (name : String) :
    frame.once.bindings.lookup name = frame.bindings.lookup name := by
  rw [once, (Bindings.ofPairs_pairs _).last, List.reverse_reverse]

theorem Frame.lookup_of_mem_once {frame : Frame} {pair : String × Value}
    (h : pair ∈ frame.once.bindings) : frame.bindings.lookup pair.1 = some pair.2 := by
  rw [← frame.lookup_once]
  refine Bindings.lookup_of_mem ?_ h
  rw [once, (Bindings.ofPairs_pairs _).names]
  exact Bindings.nodup_eraseDups _

variable {w : World} {e : Expr}

open Classical in
/-- The world without the bindings of frames that an evaluation of `e` in `frame` cannot get to. -/
noncomputable def World.within (w : World) (frame : FrameId) (e : Expr) : World :=
  { w with frames := w.frames.mapIdx fun id f =>
      if ReachesFrame (fun _ => False) w frame e id then f.once else ⟨[], none⟩ }

namespace World

theorem frames_within_of_reached {id : FrameId} (h : ReachesFrame (fun _ => False) w frame e id) :
    (w.within frame e).frames[id]? = w.frames[id]?.map Frame.once := by
  simp [within, h]

theorem frames_within_of_not_reached {id : FrameId}
    (h : ¬ ReachesFrame (fun _ => False) w frame e id) :
    (w.within frame e).frames[id]? = w.frames[id]?.map fun _ => ⟨[], none⟩ := by
  simp [within, h]

end World

/-- Neither the expression nor the body of any function that its evaluation can get hold of calls the form
for loops. -/
structure NoLoopWithinReach (forms : Registry) (w : World) (frame : FrameId) (e : Expr) : Prop where
  own : e.CallsNoLoop forms
  bodies : ∀ {id params body home forms},
    ReachesValue (fun _ => False) w frame e (.closure id params body home forms) →
      body.CallsNoLoop forms

theorem NoLoopWithinReach.value (h : NoLoopWithinReach forms w frame e) :
    ∀ v, ReachesValue (fun _ => False) w frame e v → v.Loopless
  | .number .., _ => .number
  | .string _, _ => .string
  | .boolean _, _ => .boolean
  | .array _ elements, hv => .array fun v hmem => h.value v (.element hv hmem)
  | .native .., _ => .native
  | .closure _ _ body .., hv => by
    refine .closure (h.bodies hv) fun v hholds => ?_
    have := hholds.sizeOf_lt
    exact h.value v (.inBody hv hholds)

theorem NoLoopWithinReach.expr (h : NoLoopWithinReach forms w frame e) : e.Loopless forms :=
  ⟨h.own, fun v hv => h.value v (.literal hv)⟩

/-- Without what is bound out of reach, the invariant holds of the whole world. -/
theorem NoLoopWithinReach.world (h : NoLoopWithinReach forms w frame e) :
    loopless.OfWorld () (w.within frame e) := by
  refine ⟨trivial, fun f hf pair hpair => ?_⟩
  obtain ⟨id, hid⟩ := Array.mem_iff_getElem?.1 hf
  by_cases hreached : ReachesFrame (fun _ => False) w frame e id
  · rw [frames_within_of_reached hreached, Option.map_eq_some_iff] at hid
    obtain ⟨before, there, rfl⟩ := hid
    exact h.value _ (.bound hreached there not_false (Frame.lookup_of_mem_once hpair))
  · rw [frames_within_of_not_reached hreached, Option.map_eq_some_iff] at hid
    obtain ⟨_, -, rfl⟩ := hid
    cases hpair

theorem unread_none (forms : Registry) (w : World) (frame : FrameId) (e : Expr) :
    Unread (fun _ => False) forms w frame e :=
  ⟨e.neverReads_of_none forms, fun _ => Expr.neverReads_of_none _ _⟩

/-- What frames out of reach bind makes no difference. -/
theorem beside_within (forms : Registry) (w : World) (frame : FrameId) (e : Expr) :
    Beside (selfMatching (fun _ => False) w frame e) w (w.within frame e) w (w.within frame e) := by
  have hself := (unread_none forms w frame e).beside (.refl _ w)
  have hsize : (w.within frame e).frames.size = w.frames.size := by
    simp [World.within]
  refine ⟨?_, fun k => ⟨by rw [hsize], .inr (Nat.le_add_right _ k)⟩, fun k => rfl,
    #[], by simp, by simp, by simp⟩
  rintro i i' ⟨rfl, hi⟩
  have hframes := hself.frames ⟨rfl, hi⟩
  cases here : w.frames[i]? with
  | none =>
    have hthere : (w.within frame e).frames[i]? = none := by
      simpa [hsize] using here
    rw [hthere]
    exact .none
  | some f =>
    have hreached : ReachesFrame (fun _ => False) w frame e i := by
      obtain ⟨hlt, -⟩ := Array.getElem?_eq_some_iff.1 here
      exact hi.resolve_right (Nat.not_le.2 hlt)
    rw [frames_within_of_reached hreached, here, Option.map_some]
    rw [here] at hframes
    obtain ⟨hparent, hbound⟩ : Frame.Alike _ f f := by cases hframes; assumption
    exact .some ⟨hparent, fun name shown => f.lookup_once name ▸ hbound name shown⟩

theorem never_outOfRounds (h : NoLoopWithinReach forms w frame e) (rounds depth : Nat) (w' : World) :
    eval rounds depth forms frame e w ≠ .error .outOfRounds w' := by
  intro hend
  have hunread := unread_none forms w frame e
  have hframe : (selfMatching (fun _ => False) w frame e).frame frame frame := ⟨rfl, .inl .here⟩
  have hruns := evaluatesAlongside _ w _ rounds depth hframe hunread.kept w _
    (beside_within forms w frame e)
  rw [hend] at hruns
  generalize hwithin : eval rounds depth forms frame e _ = ending at hruns
  cases hruns with
  | error => exact (eval_finishes rounds depth forms frame e h.expr).ends _ h.world _ hwithin

/-- Only loops can run forever. Where neither the expression nor the body of any function within reach
calls the form for loops, an evaluation comes to one end, however many rounds loops may take: it runs into
the limit on depth, or it gives the value or the fault that the rules say. -/
theorem only_loops_run_forever (depth : Nat) (forms : Registry) (frame : FrameId) (e : Expr) (w : World)
    (h : NoLoopWithinReach forms w frame e) :
    ∃ result, (∀ rounds, eval rounds depth forms frame e w = result) ∧
      ((∃ w', result = .error .tooDeep w') ∨
        ∃ o w', result = Outcome.result o w' ∧ Evaluates forms frame e w o w') := by
  refine ⟨eval 0 depth forms frame e w, fun rounds => ?_, ?_⟩
  · rcases (eval_cutShort (.longer (Nat.zero_le rounds) depth) forms frame e).ends w with
      ⟨_, w', hend, rfl, -⟩ | hsame
    · exact absurd hend (never_outOfRounds h 0 depth w')
    · exact hsame
  · cases hend : eval 0 depth forms frame e w with
    | ok v w' =>
      exact .inr ⟨.value v, w', rfl, eval_followsRules 0 depth forms frame e w (.value v) w' hend⟩
    | error halt w' =>
      cases halt with
      | fault cause =>
        exact .inr ⟨.fault cause, w', rfl,
          eval_followsRules 0 depth forms frame e w (.fault cause) w' hend⟩
      | tooDeep => exact .inl ⟨w', rfl⟩
      | outOfRounds => exact absurd hend (never_outOfRounds h 0 depth w')

/-- A function that does nothing but call the function of its name. -/
def selfCaller : Value :=
  .closure 1 [] (.apply (.word "f") []) 0 .standard

def selfCallerWorld : World :=
  ⟨#[⟨[("f", selfCaller)], none⟩], 2, #[]⟩

def callSelfCaller : Expr :=
  .apply (.word "f") []

theorem callSelfCaller_holds_nothing {v : Value} : ¬ callSelfCaller.Holds v := by
  rintro (_ | inside | ⟨mem, -⟩)
  · cases inside
  · cases mem

mutual

theorem selfCaller_reachesFrame {id : FrameId} :
    ReachesFrame (fun _ => False) selfCallerWorld 0 callSelfCaller id → id = 0
  | .here => rfl
  | .around reached there inside => by
    obtain rfl := selfCaller_reachesFrame reached
    cases there
    cases inside
  | .home reached => by
    have h := selfCaller_reachesValue reached
    exact (Value.closure.inj h).2.2.2.1

theorem selfCaller_reachesValue {v : Value} :
    ReachesValue (fun _ => False) selfCallerWorld 0 callSelfCaller v → v = selfCaller
  | .literal inside => absurd inside callSelfCaller_holds_nothing
  | .bound reached there _ bound => by
    obtain rfl := selfCaller_reachesFrame reached
    cases there
    exact Bindings.of_lookup (P := (· = selfCaller)) (by simp [selfCallerWorld]) bound
  | .element reached _ => by cases selfCaller_reachesValue reached
  | .inBody reached inside => by
    obtain ⟨-, -, rfl, -⟩ := Value.closure.inj (selfCaller_reachesValue reached)
    exact absurd inside callSelfCaller_holds_nothing

end

/-- It runs into the limit on depth, and not into the one on rounds. -/
theorem selfCaller_ends :
    NoLoopWithinReach .standard selfCallerWorld 0 callSelfCaller ∧
      (∃ w', ∀ rounds, eval rounds 9 .standard 0 callSelfCaller selfCallerWorld = .error .tooDeep w') := by
  have hplain : callSelfCaller.CallsNoLoop .standard := by
    refine .apply ?_ .word (by simp)
    rintro ⟨name, hname, known⟩
    cases hname
    cases known
  have h : NoLoopWithinReach .standard selfCallerWorld 0 callSelfCaller := by
    refine ⟨hplain, fun reached => ?_⟩
    obtain ⟨-, -, rfl, -, rfl⟩ := Value.closure.inj (selfCaller_reachesValue reached)
    exact hplain
  obtain ⟨result, hsame, -⟩ := only_loops_run_forever 9 .standard 0 callSelfCaller selfCallerWorld h
  refine ⟨h, stateAfter (eval 0 9 .standard 0 callSelfCaller) selfCallerWorld, fun rounds => ?_⟩
  rw [hsame rounds, ← hsame 0]
  cbv

end CallScript
