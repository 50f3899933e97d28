import CallScript.Proofs.Eval.Outcome
import CallScript.Proofs.Store.CutShort
import CallScript.Proofs.Value.Depth

/-!
# What native functions depend on

A native function touches no frame: all that it does to a world is to make an object or to record
something. Comparing and printing are the only native functions that look into arrays to any depth.
Where they may look deeper they end as before, but for an end at the limit itself.
-/

namespace CallScript.Native

variable {R : World → World → Prop}

theorem maintains_newNumber (hR : Cumulative R) (x : Float) : Maintains R (World.newNumber x) := by
  rw [World.newNumber]
  split
  · exact fun w => hR.object w
  · exact .pure hR.toLasting _

theorem maintains_expectNumber (hR : Cumulative R) (op : Native) (asked : Operand) (v : Value) :
    Maintains R (expectNumber op asked v) := by
  cases v <;> exact fun w => hR.refl w

theorem maintains_expectArray (hR : Cumulative R) (op : Native) (v : Value) :
    Maintains R (expectArray op v) := by
  cases v <;> exact fun w => hR.refl w

theorem maintains_arithmetic (hR : Cumulative R) (op : Native) (asked : Operand)
    {compute : Float → Float → Run Value} (h : ∀ x y, Maintains R (compute x y)) (a b : Value) :
    Maintains R (arithmetic op asked compute a b) := by
  refine .bind hR.toLasting (maintains_expectNumber hR op asked a) fun x => ?_
  exact .bind hR.toLasting (maintains_expectNumber hR op asked b) fun y => h x y

theorem maintains_quotient (hR : Cumulative R) (x y : Float) : Maintains R (quotient x y) := by
  rw [quotient]
  split
  · exact .pure hR.toLasting _
  · exact maintains_newNumber hR _

theorem maintains_comparison (hR : Cumulative R) (op : Native) (numbers : Float → Float → Bool)
    (strings : String → String → Bool) (a b : Value) :
    Maintains R (comparison op numbers strings a b) := by
  unfold comparison
  split <;> exact fun w => hR.refl w

theorem maintains_elementAt (hR : Cumulative R) (elements : List Value) (x : Float) :
    Maintains R (elementAt elements x) := by
  rw [elementAt]
  split <;> exact fun w => hR.refl w

theorem maintains_printValue (hR : Cumulative R) (depth : Nat) (writes : Bool) (v : Value) :
    Maintains R (printValue depth writes v) := by
  rw [printValue]
  cases writes with
  | false => exact .pure hR.toLasting v
  | true =>
    cases v.text? depth false with
    | none => exact .throw hR.toLasting _
    | some text => exact fun w => hR.event w (.line text)

theorem maintains_call (hR : Cumulative R) (depth : Nat) (op : Native) (args : List Value) :
    Maintains R (op.call depth args) := by
  fun_cases call depth op args with
  | case2 a b | case3 a b | case4 a b =>
    exact maintains_arithmetic hR _ _ (fun x y => maintains_newNumber hR _) a b
  | case5 a b => exact maintains_arithmetic hR _ _ (maintains_quotient hR) a b
  | case8 a b | case9 a b => exact maintains_comparison hR _ _ _ a b
  | case10 writes v => exact maintains_printValue hR depth writes v
  | case11 elements => exact fun w => hR.object w
  | case12 v =>
    exact .bind hR.toLasting (maintains_expectArray hR _ v) fun elements => .pure hR.toLasting _
  | case13 v i =>
    refine .bind hR.toLasting (maintains_expectArray hR _ v) fun elements => ?_
    refine .bind hR.toLasting (maintains_expectNumber hR _ _ i) fun x => ?_
    exact maintains_elementAt hR elements x
  | _ => exact fun w => hR.refl w

variable {depth depth' : Nat} {op : Native} {args : List Value} {o : Outcome Value} {w w' : World}

theorem printValue_upToDepth (hle : depth ≤ depth') (writes : Bool) (v : Value) :
    UpToDepth (printValue depth writes v) (printValue depth' writes v) := by
  have hrecords := maintains_printValue cumulative_records depth' writes v
  cases writes with
  | false => exact .refl hrecords
  | true =>
    cases htext : v.text? depth false with
    | none =>
      have hdeep : printValue depth true v = throw .tooDeep := by
        simp only [printValue, if_true, htext]
        rfl
      rw [hdeep]
      exact .tooDeep hrecords
    | some text =>
      have hsame : printValue depth' true v = printValue depth true v := by
        simp only [printValue, if_true, htext, Value.text?_mono hle htext]
      rw [← hsame]
      exact .refl hrecords

theorem call_upToDepth (hle : depth ≤ depth') (op : Native) (args : List Value) :
    UpToDepth (op.call depth args) (op.call depth' args) := by
  have hrecords := maintains_call cumulative_records depth' op args
  revert hrecords
  fun_cases call depth op args with
  | case6 a b answer hanswer =>
    intro hrecords
    simp only [call, Value.equals?_mono hle hanswer]
    exact .refl (.pure lasting_records _)
  | case7 a b hdeep => exact .tooDeep
  | case10 writes v => exact fun _ => printValue_upToDepth hle writes v
  | _ =>
    intro hrecords
    simp only [call] at hrecords ⊢
    exact .refl hrecords

theorem call_cutShort {limit : Halt → Prop} (hle : depth ≤ depth')
    (hlimit : depth < depth' → limit .tooDeep) (op : Native) (args : List Value) :
    CutShort limit Records (op.call depth args) (op.call depth' args) := by
  rcases Nat.eq_or_lt_of_le hle with rfl | hlt
  · exact .refl (maintains_call cumulative_records depth op args)
  · refine CutShort.mono (call_upToDepth hle op args) ?_
    rintro _ rfl
    exact hlimit hlt

theorem call_mono (hle : depth ≤ depth') (h : op.call depth args w = o.result w') :
    op.call depth' args w = o.result w' := by
  refine ((call_upToDepth hle op args).eq_of_ne fun w'' hdeep => ?_).trans h
  rw [hdeep] at h
  cases o <;> cases h

end CallScript.Native
