import CallScript.Proofs.Eval.Isolation
import CallScript.Proofs.Eval.Parallel

/-!
# Names that are never read

What a name is bound to does not matter to an evaluation that never reads the name: neither does the
expression, nor does the body of any function that the evaluation can get hold of. In two worlds that
differ only in what such names are bound to, the evaluation comes to the same and leaves worlds that
again differ only so. The operators of calls of special forms are names of this kind: no binding comes
before the registry.
-/

namespace CallScript

open World

variable {hidden : String → Prop} {w w' : World} {frame : FrameId} {forms : Registry} {e : Expr}

/-- The frames are at the same place and bind the names that are not hidden to the same. -/
structure Frame.AgreesOff (hidden : String → Prop) (frame frame' : Frame) : Prop where
  parent : frame.parent = frame'.parent
  bound : ∀ name, ¬ hidden name → frame.bindings.lookup name = frame'.bindings.lookup name

/-- The worlds have the same frames and objects and differ at most in what hidden names are bound to,
and in what was recorded. -/
structure AgreesOff (hidden : String → Prop) (w w' : World) : Prop where
  size : w.frames.size = w'.frames.size
  frames : ∀ id : FrameId, Option.Rel (Frame.AgreesOff hidden) w.frames[id]? w'.frames[id]?
  nextId : w.nextId = w'.nextId

theorem AgreesOff.refl (hidden : String → Prop) (w : World) : AgreesOff hidden w w := by
  refine ⟨rfl, fun id => ?_, rfl⟩
  cases w.frames[id]? with
  | none => exact .none
  | some frame => exact .some ⟨rfl, fun _ _ => rfl⟩

mutual

/-- Frames that an evaluation of `e` in `frame` can get to, no hidden name being read. -/
inductive ReachesFrame (hidden : String → Prop) (w : World) (frame : FrameId) (e : Expr) :
    FrameId → Prop where
  | here : ReachesFrame hidden w frame e frame
  | around {id f around} (reached : ReachesFrame hidden w frame e id)
      (there : w.frames[id]? = some f) (inside : f.parent = some around) :
      ReachesFrame hidden w frame e around
  | home {id params body home forms}
      (reached : ReachesValue hidden w frame e (.closure id params body home forms)) :
      ReachesFrame hidden w frame e home

/-- Values that it can get hold of. -/
inductive ReachesValue (hidden : String → Prop) (w : World) (frame : FrameId) (e : Expr) :
    Value → Prop where
  | literal {v} (inside : e.Holds v) : ReachesValue hidden w frame e v
  | bound {id f name v} (reached : ReachesFrame hidden w frame e id)
      (there : w.frames[id]? = some f) (shown : ¬ hidden name)
      (bound : f.bindings.lookup name = some v) : ReachesValue hidden w frame e v
  | element {id elements v} (reached : ReachesValue hidden w frame e (.array id elements))
      (mem : v ∈ elements) : ReachesValue hidden w frame e v
  | inBody {id params body home forms v}
      (reached : ReachesValue hidden w frame e (.closure id params body home forms))
      (inside : body.Holds v) : ReachesValue hidden w frame e v

end

/-- Neither the expression nor the body of any function within reach reads a hidden name. -/
structure Unread (hidden : String → Prop) (forms : Registry) (w : World) (frame : FrameId) (e : Expr) :
    Prop where
  own : e.NeverReads hidden forms
  bodies : ∀ {id params body home forms},
    ReachesValue hidden w frame e (.closure id params body home forms) → body.NeverReads hidden forms

/-- Everything stands for itself: frames within reach, and those that are made later. -/
def selfMatching (hidden : String → Prop) (w : World) (frame : FrameId) (e : Expr) : Matching where
  hidden := hidden
  frame i i' := i = i' ∧ (ReachesFrame hidden w frame e i ∨ w.frames.size ≤ i)
  object := Eq
  order := by
    rintro i i' j j' ⟨rfl, -⟩ ⟨rfl, -⟩
    rfl
  single := by
    rintro i i' j j' rfl rfl
    rfl
  kept := rfl

theorem Unread.standsAlone (h : Unread hidden forms w frame e) :
    Value.Alike.StandsAlone (selfMatching hidden w frame e) (ReachesValue hidden w frame e) where
  number _ := rfl
  array hv := ⟨rfl, fun _ hmem => .element hv hmem⟩
  closure hv := ⟨rfl, ⟨rfl, .inl (.home hv)⟩, h.bodies hv, fun _ hholds => .inBody hv hholds⟩

theorem Unread.alike_self (h : Unread hidden forms w frame e) {v : Value}
    (hv : ReachesValue hidden w frame e v) : v.Alike (selfMatching hidden w frame e) v :=
  .self h.standsAlone v hv

theorem Unread.kept (h : Unread hidden forms w frame e) : e.Kept (selfMatching hidden w frame e) forms :=
  ⟨h.own, fun _ hv => h.alike_self (.literal hv)⟩

theorem Unread.beside (h : Unread hidden forms w frame e) (hw : AgreesOff hidden w w') :
    Beside (selfMatching hidden w frame e) w w' w w' := by
  refine ⟨?_, fun k => ⟨by rw [hw.size], .inr (Nat.le_add_right _ k)⟩, fun k => ?_, #[], by simp, ?_, ?_⟩
  · rintro i i' ⟨rfl, hi⟩
    have hframes := hw.frames i
    cases here : w.frames[i]? <;> cases here' : w'.frames[i]? <;> rw [here, here'] at hframes
    · exact .none
    · cases hframes
    · cases hframes
    · next f f' =>
      have hagrees : Frame.AgreesOff hidden f f' := by cases hframes; assumption
      have hreached : ReachesFrame hidden w frame e i := by
        obtain ⟨hlt, -⟩ := Array.getElem?_eq_some_iff.1 here
        exact hi.resolve_right (Nat.not_le.2 hlt)
      refine .some ⟨?_, fun name shown => ?_⟩
      · rw [← hagrees.parent]
        cases inside : f.parent with
        | none => exact .none
        | some around => exact .some ⟨rfl, .inl (.around hreached here inside)⟩
      · rw [← hagrees.bound name shown]
        cases bound : f.bindings.lookup name with
        | none => exact .none
        | some v => exact .some (h.alike_self (.bound hreached here shown bound))
  · show w.nextId + k = w'.nextId + k
    rw [hw.nextId]
  · rw [Array.append_empty]
  · rw [Array.append_empty]

theorem eq_of_alike_self {e' : Expr} {v v' : Value} (h : v.Alike (selfMatching hidden w frame e') v') :
    v = v' :=
  Value.Alike.eq (m := selfMatching hidden w frame e') (fun _ _ hi => hi.1) (fun _ _ hi => hi) h

theorem agreesOff_of_alike {f f' : Frame} (h : Frame.Alike (selfMatching hidden w frame e) f f') :
    Frame.AgreesOff hidden f f' :=
  ⟨eq_of_rel h.parent fun _ _ hi => hi.1,
    fun name shown => eq_of_rel (h.bound name shown) fun _ _ hv => eq_of_alike_self hv⟩

/-- Two runs leave worlds that differ in hidden names only. Frames within reach are alike, and all
others of those that there were are as they were. -/
theorem agreesOff_of_beside {may may' : String → Prop} {w₁ w₁' : World} (hw : AgreesOff hidden w w')
    (h : Beside (selfMatching hidden w frame e) w w' w₁ w₁') (hwrites : OnlyWrites frame may w w₁)
    (hwrites' : OnlyWrites frame may' w' w₁') : AgreesOff hidden w₁ w₁' := by
  refine ⟨(h.nextFrame 0).1, fun id => ?_, h.nextObject 0⟩
  by_cases hid : ReachesFrame hidden w frame e id ∨ w.frames.size ≤ id
  · have hframes := h.frames (show (selfMatching hidden w frame e).frame id id from ⟨rfl, hid⟩)
    generalize w₁.frames[id]? = f at hframes ⊢
    generalize w₁'.frames[id]? = f' at hframes ⊢
    cases hframes with
    | none => exact .none
    | some halike => exact .some (agreesOff_of_alike halike)
  · obtain ⟨hreached, hold⟩ := not_or.1 hid
    have hne : id ≠ frame := by
      rintro rfl
      exact hreached .here
    have hlt : id < w.frames.size := Nat.not_le.1 hold
    rw [hwrites.others id hlt hne, hwrites'.others id (hw.size ▸ hlt) hne]
    exact hw.frames id

/-- Bindings of names that are never read do not matter. In worlds that differ only in what such names
are bound to, an evaluation ends with the same value, with the same fault or at the same limit, having
recorded the same, and the worlds that it leaves again differ only so. A call whose operator is the
name of a special form runs this form, whatever the frame binds the name to. -/
theorem unread_bindings_do_not_matter :
    (∀ rounds depth hidden forms frame e w w', AgreesOff hidden w w' →
      Unread hidden forms w frame e →
      EndAlike (fun w₁ w₁' => AgreesOff hidden w₁ w₁' ∧ SameRecord w w' w₁ w₁') Eq
        (eval rounds depth forms frame e w) (eval rounds depth forms frame e w')) ∧
    ∀ rounds depth forms name form parts frame, forms.lookup name = some form →
      eval rounds (depth + 1) forms frame (.apply (.word name) parts) =
        form.run rounds (eval rounds depth forms frame) forms frame parts := by
  refine ⟨fun rounds depth hidden forms frame e w w' hw h => ?_, fun rounds depth forms name form
    parts frame known => eval_form known parts⟩
  have hbeside := h.beside hw
  have hframe : (selfMatching hidden w frame e).frame frame frame := ⟨rfl, .inl .here⟩
  have hruns := evaluatesAlongside _ w w' rounds depth hframe h.kept w w' hbeside
  refine hruns.mono (fun hafter => ⟨?_, hafter.events⟩) fun v v' hv => eq_of_alike_self hv
  exact agreesOff_of_beside hw hafter (eval_writesDefined rounds depth forms frame e w)
    (eval_writesDefined rounds depth forms frame e w')

def chooser : Value :=
  .closure 1 ["if"] (.apply (.word "if") [.literal (.boolean true), .literal (.string "yes"),
    .literal (.string "no")]) 0 .standard

def chooserBindings (v : Value) : Bindings :=
  [("if", v), ("choose", chooser)]

def chooserWorld (v : Value) : World :=
  ⟨#[⟨chooserBindings v, none⟩], 2, #[]⟩

def callChooser : Expr :=
  .apply (.word "choose") [.literal (.boolean false)]

/-- The call gets hold of the function, of booleans and of strings. -/
inductive ChooserReaches : Value → Prop where
  | chooser : ChooserReaches chooser
  | boolean {b} : ChooserReaches (.boolean b)
  | string {text} : ChooserReaches (.string text)

theorem lookup_chooserBindings {name : String} (shown : ¬ name = "if") (v : Value) :
    (chooserBindings v).lookup name = if name = "choose" then some chooser else none := by
  have hif : (name == "if") = false := beq_false_of_ne shown
  by_cases hname : name = "choose"
  · rw [if_pos hname, hname]
    rfl
  · simp [chooserBindings, List.lookup_cons, hif, beq_false_of_ne hname, hname]

theorem chooserReaches_of_holds {v : Value} {body : Expr} {id : Nat} {params : List String}
    {home : FrameId} {forms : Registry}
    (h : ChooserReaches (.closure id params body home forms)) (hv : body.Holds v) :
    ChooserReaches v := by
  generalize hf : Value.closure id params body home forms = f at h
  cases h with
  | chooser =>
    obtain ⟨-, -, rfl, -, -⟩ := Value.closure.injEq .. ▸ hf
    rcases hv with _ | hv | ⟨hmem, hv⟩
    · cases hv
    · simp only [List.mem_cons, List.not_mem_nil, or_false] at hmem
      rcases hmem with rfl | rfl | rfl <;> cases hv <;> constructor
  | _ => cases hf

mutual

theorem chooser_reachesFrame {v : Value} {id : FrameId} :
    ReachesFrame (· = "if") (chooserWorld v) 0 callChooser id → id = 0
  | .here => rfl
  | .around reached there inside => by
    obtain rfl := chooser_reachesFrame reached
    cases there
    cases inside
  | .home reached => by
    have h := chooser_reachesValue reached
    generalize hf : Value.closure _ _ _ id _ = f at h
    cases h with
    | chooser => exact (Value.closure.inj hf).2.2.2.1
    | _ => cases hf

theorem chooser_reachesValue {v u : Value} :
    ReachesValue (· = "if") (chooserWorld v) 0 callChooser u → ChooserReaches u
  | .literal inside => by
    rcases inside with _ | inside | ⟨hmem, inside⟩
    · cases inside
    · simp only [List.mem_singleton] at hmem
      subst hmem
      cases inside
      exact .boolean
  | .bound reached there shown bound => by
    obtain rfl := chooser_reachesFrame reached
    cases there
    have bound := (lookup_chooserBindings shown v).symm.trans bound
    split at bound
    · cases bound
      exact .chooser
    · cases bound
  | .element reached mem => by
    cases chooser_reachesValue reached
  | .inBody reached inside => chooserReaches_of_holds (chooser_reachesValue reached) inside

end

/-- Whatever the name of the form is bound to around the call, the call comes to the same. -/
theorem chooser_unread :
    AgreesOff (· = "if") (chooserWorld (.boolean true)) (chooserWorld (.string "")) ∧
      Unread (· = "if") .standard (chooserWorld (.boolean true)) 0 callChooser ∧
      EndAlike (fun w₁ w₁' => AgreesOff (· = "if") w₁ w₁' ∧
          SameRecord (chooserWorld (.boolean true)) (chooserWorld (.string "")) w₁ w₁') Eq
        (eval 1 10 .standard 0 callChooser (chooserWorld (.boolean true)))
        (eval 1 10 .standard 0 callChooser (chooserWorld (.string ""))) := by
  have hagrees : AgreesOff (· = "if") (chooserWorld (.boolean true)) (chooserWorld (.string "")) := by
    refine ⟨rfl, fun id => ?_, rfl⟩
    cases id with
    | zero =>
      refine .some ⟨rfl, fun name shown => ?_⟩
      exact (lookup_chooserBindings shown _).trans (lookup_chooserBindings shown _).symm
    | succ id => exact .none
  have hunread : Unread (· = "if") .standard (chooserWorld (.boolean true)) 0 callChooser := by
    refine ⟨?_, fun {id params body home forms} reached => ?_⟩
    · refine .call (fun name hname => ?_) (.word (by decide)) ?_
      · cases hname
        rfl
      · simp only [List.mem_singleton, forall_eq]
        exact .literal
    · have h := chooser_reachesValue reached
      generalize hf : Value.closure id params body home forms = f at h
      cases h with
      | chooser =>
        obtain ⟨-, -, rfl, -, rfl⟩ := Value.closure.inj hf
        refine @Expr.NeverReads.form _ _ _ .conditional _ rfl (by simp [Form.named]) ?_
        simp only [Form.others, List.forall_mem_cons]
        exact ⟨.literal, .literal, .literal, by simp⟩
      | _ => cases hf
  exact ⟨hagrees, hunread,
    unread_bindings_do_not_matter.1 1 10 _ .standard 0 callChooser _ _ hagrees hunread⟩

end CallScript
