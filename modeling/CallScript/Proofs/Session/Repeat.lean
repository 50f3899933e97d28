import CallScript.Proofs.Eval.Parallel
import CallScript.Proofs.Session.Errors

/-!
# Calls made twice

A call made a second time with the same arguments comes to what it came to at first, although the first
call has left its frames and objects behind: what there was before is as it was, and what the second
call makes stands for what the first one made. So a function has no state of its own.
-/

namespace CallScript

open World

/-- The value is a literal within bounds too. -/
theorem Expr.Within.of_holds {b : Bounds} {e : Expr} {v : Value} (hv : e.Holds v) (h : e.Within b) :
    v.Within b := by
  induction hv with
  | literal =>
    cases h with
    | literal inside => exact inside
  | operator _ ih =>
    cases h with
    | apply first rest => exact ih first
  | arg mem _ ih =>
    cases h with
    | apply first rest => exact ih (rest _ mem)

/-- Places below `old` stand for themselves, and from there on for those that come `made` later. -/
def steppedOver (old made place : Nat) : Nat :=
  if place < old then place else place + made

theorem steppedOver_lt_iff {old made i j : Nat} :
    i < j ↔ steppedOver old made i < steppedOver old made j := by
  unfold steppedOver
  split <;> split <;> omega

theorem steppedOver_inj {old made i j : Nat} :
    i = j ↔ steppedOver old made i = steppedOver old made j := by
  unfold steppedOver
  split <;> split <;> omega

variable {w w' : World}

/-- What stands for what if one run begins in a proper world and the other in one that it grew into. -/
def laterMatching (hw : w.Proper) (w' : World) : Matching where
  hidden _ := False
  frame i i' := i' = steppedOver w.frames.size (w'.frames.size - w.frames.size) i
  object i i' := i' = steppedOver w.nextId (w'.nextId - w.nextId) i
  order := by
    rintro i i' j j' rfl rfl
    exact steppedOver_lt_iff
  single := by
    rintro i i' j j' rfl rfl
    exact steppedOver_inj
  kept := (if_pos hw.kept).symm

theorem standsAlone_laterMatching (hw : w.Proper) (w' : World) :
    Value.Alike.StandsAlone (laterMatching hw w') w.Has where
  number hv := by
    cases hv with
    | number made => exact (if_pos made).symm
  array hv := by
    cases hv with
    | array made each => exact ⟨(if_pos made).symm, each⟩
  closure hv := by
    cases hv with
    | closure made there inside =>
      exact ⟨(if_pos made).symm, (if_pos there).symm, Expr.neverReads_of_none _ _,
        fun _ hholds => inside.of_holds hholds⟩

theorem beside_laterMatching (hw : w.Proper) (hgrows : w.Grows w') (hextends : Extends w w') :
    Beside (laterMatching hw w') w w' w w' := by
  have hself := fun v => Value.Alike.self (standsAlone_laterMatching hw w') v
  have hsize := hgrows.le.frames
  have hobjects := hgrows.le.objects
  simp only [World.bounds] at hsize hobjects
  refine ⟨?_, fun k => ?_, fun k => ?_, #[], by simp, by rw [Array.append_empty],
    by rw [Array.append_empty]⟩
  · rintro i i' rfl
    rw [steppedOver]
    split
    · next hlt =>
      rw [hextends.unchanged i hlt]
      obtain ⟨f, here⟩ : ∃ f, w.frames[i]? = some f := ⟨_, Array.getElem?_eq_getElem hlt⟩
      have hframe := hw.frames i f here
      rw [here]
      refine .some ⟨?_, fun name _ => ?_⟩
      · cases inside : f.parent with
        | none => exact .none
        | some around =>
          exact .some (if_pos (Nat.lt_trans (hframe.inside around inside) hlt)).symm
      · cases bound : f.bindings.lookup name with
        | none => exact .none
        | some v => exact .some (hself v (hframe.bound name v bound))
    · next hge =>
      rw [Array.getElem?_eq_none (Nat.not_lt.1 hge), Array.getElem?_eq_none (by omega)]
      exact .none
  · show w'.frames.size + k = steppedOver _ _ _
    rw [steppedOver, if_neg (by omega)]
    omega
  · show w'.nextId + k = steppedOver _ _ _
    rw [steppedOver, if_neg (by omega)]
    omega

/-- Programs that print the two values write the same. -/
def SameText (v v' : Value) : Prop :=
  ∀ depth nested, v.text? depth nested = v'.text? depth nested

/-- A call in a proper world, and the same call again in the world that the first one leaves. -/
theorem repeated_applyValue (rounds depth : Nat) (hw : w.Proper) {f : Value} {args : List Value}
    (hf : w.Has f) (hargs : ∀ a ∈ args, w.Has a) :
    let call := applyValue depth (eval rounds depth) f args
    EndAlike (SameRecord w (stateAfter call w)) SameText (call w) (call (stateAfter call w)) := by
  intro call
  have hyields : Yields World.Has call w :=
    yields_applyValue (eval_yieldsWithin rounds depth) hw depth hf hargs
  have hgrows : w.Grows (stateAfter call w) := by
    cases hcall : call w with
    | ok v w' =>
      rw [stateAfter_of_ok hcall]
      exact (hyields.ok hcall).1
    | error halt w' =>
      rw [stateAfter_of_error hcall]
      exact (hyields.error hcall).1
  have hbeside := beside_laterMatching hw hgrows (applyValue_extends rounds depth f args w)
  have hself := fun v => Value.Alike.self (standsAlone_laterMatching hw (stateAfter call w)) v
  have hruns := parallel_applyValue (evaluatesAlongside _ _ _ rounds depth) depth (hself f hf)
    (List.forall₂_same.2 fun a ha => hself a (hargs a ha)) _ _ hbeside
  exact hruns.mono (fun hafter => hafter.events) fun _ _ hv => hv.text?_eq

namespace Session

/-- Functions have no state of their own. In whatever state a session is, a call of a function with
some arguments, made again right after it ended, ends in the same way: with the same fault, at the same
limit, or with a value that has the same text. Both calls write the same lines and cause the same
warnings. -/
theorem repeated_call_observed_alike (limits : Limits) (path : String) (interactive : Bool)
    (forms : Registry) (reporter : Reporter) (writes verbose : Bool) {w : World} (hw : w.Proper)
    (steps : List Step) :
    let desk := after limits (start path interactive forms reporter writes verbose w) steps
    ∀ rounds depth f args, desk.world.Has f → (∀ a ∈ args, desk.world.Has a) →
      let call := applyValue depth (eval rounds depth) f args
      EndAlike (SameRecord desk.world (stateAfter call desk.world)) SameText (call desk.world)
        (call (stateAfter call desk.world)) := by
  intro desk rounds depth f args hf hargs
  have hstart := proper_start path interactive forms reporter writes verbose hw
  have hdesk := @leadsTo_after limits _ hstart steps
  exact repeated_applyValue rounds depth hdesk.proper.world hf hargs

/-- A function that makes an array of its argument, called twice in the global frame of a session. -/
theorem repeated_call_observed_alike_array :
    let w : World := ⟨#[], 2, #[]⟩
    let f : Value := .closure 1 ["x"] (.apply (.word "array") [.word "x"]) 1 .standard
    let desk := after .standard (start console true .standard (.fresh true .plain) true false w) []
    w.Proper ∧ desk.world.Has f ∧
      let call := applyValue 10 (eval 1 10) f [.string "a"]
      EndAlike (SameRecord desk.world (stateAfter call desk.world)) SameText (call desk.world)
        (call (stateAfter call desk.world)) := by
  intro w f desk
  have hproper : w.Proper := ⟨by decide, fun id frame h => by simp [w] at h⟩
  have hf : desk.world.Has f := by
    refine .closure (by decide) (by decide) (.apply .word ?_)
    simp only [List.mem_singleton, forall_eq]
    exact .word
  refine ⟨hproper, hf, ?_⟩
  refine repeated_call_observed_alike .standard console true .standard (.fresh true .plain) true false
    hproper [] 1 10 f [.string "a"] hf ?_
  simp only [List.mem_singleton, forall_eq]
  exact .string

end Session

end CallScript
