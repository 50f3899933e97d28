import CallScript.Proofs.Session.Invariant
import CallScript.Proofs.Value.ByType

/-!
# Equality in sessions

Whatever programs of a session compare is in one catalogue of arrays and functions. So equality goes by
type, but for arrays that are equal although a boolean in the one meets the number that it counts as in
the other; and where none do, what is equal is shown alike.
-/

namespace CallScript

theorem Expr.WellFormed.listed (c : Catalogue) {e : Expr} (h : e.WellFormed) : e.Listed c := by
  induction h with
  | string => exact .literal .string
  | number => exact .literal .number
  | word => exact .word
  | apply _ _ hfirst hrest => exact .apply hfirst hrest

theorem Invariant.catalogued_empty : catalogued.OfWorld .blank .empty :=
  ⟨fun _ _ => rfl, fun frame hframe => by simp [World.empty] at hframe⟩

namespace Session

open Value

/-- Equality goes by type at every depth. Evaluation and sessions keep a catalogue of the arrays and
functions that there are. Of two values in one catalogue, the first without NaN and nested no deeper
than may be looked, it is told whether they are equal. If they are of one type and equal as numbers,
strings, booleans or functions, or arrays of one length with equal elements throughout, then they are;
and if they are equal, then so, unless in one place of the two a boolean meets the number that it counts
as. Equal values in which these meet at no depth have the same text. -/
theorem equality_goes_by_type (limits : Limits) (path : String) (interactive : Bool) (forms : Registry)
    (reporter : Reporter) (writes verbose : Bool) {w : World} {c : Catalogue}
    (hw : Invariant.catalogued.OfWorld c w) :
    (∀ rounds depth, EvalKeeps .catalogued (eval rounds depth)) ∧
    (∀ steps, ∃ c', c ≤ c' ∧ Invariant.catalogued.OfDesk forms c'
      (after limits (start path interactive forms reporter writes verbose w) steps)) ∧
    ∀ (c : Catalogue) (depth : Nat) (a b : Value), a.Listed c → b.Listed c → a.nesting ≤ depth →
      (∀ part, a.Includes part → part.isNaN = false) →
      ∃ answer, equals? depth a b = some answer ∧
        (a.kind = b.kind ∧ EqualByType depth a b ↔ answer = true ∧ ¬ Clash a b) ∧
        (answer = true → ¬ Mixed a b → ∀ room nested, a.text? room nested = b.text? room nested) := by
  refine ⟨fun rounds depth => eval_keeps _ rounds depth, fun steps => ?_, ?_⟩
  · have hstart := Invariant.OfDesk.start path interactive forms reporter writes verbose hw
    exact hstart.after limits (fun c e he => he.listed c) steps
  · intro c depth a b ha hb hdepth hnan
    obtain ⟨answer, hanswer, hiff, htext⟩ := equals?_by_type hdepth hnan ha hb
    exact ⟨answer, hanswer, Iff.trans ⟨And.right, fun h => ⟨h.kind_eq, h⟩⟩ hiff, htext⟩

/-- Among the elements of arrays a boolean equals the number that it counts as, although they are of
different types, and the arrays have different texts. -/
theorem equality_mixes_types_in_arrays :
    let truths := Value.array 1 [.boolean true]
    let numbers := Value.array 2 [.number 1 0]
    (after .standard (start console true .standard (.fresh true .plain) true false .empty)
        [.add "==(array(true), array(1))" 1, .run]).session.results.map (text? 1 false) = [some "true"] ∧
      equals? 1 truths numbers = some true ∧ ¬ EqualByType 1 truths numbers ∧
      truths.text? 2 false = some "[true]" ∧ numbers.text? 2 false = some "[1]" := by
  refine ⟨by decide +kernel, by decide, fun h => ?_, by decide +kernel, by decide +kernel⟩
  cases h with
  | function isFunction => cases isFunction
  | array each =>
    have hpair : equals? 1 (boolean true) (number 1 0) = some true := (List.forall₂_cons.1 each).1
    exact absurd hpair (by decide)

/-- Arrays in arrays, with zeros of both signs, and two of different lengths that would clash. -/
theorem equality_goes_by_type_nested :
    let zeros := Value.array 1 [.number 0 0]
    let others := Value.array 2 [.number (-0) 0]
    let first := Value.array 3 [zeros, .string "x"]
    let second := Value.array 4 [others, .string "x"]
    let desk := after .standard
      (start console true .standard (.fresh true .plain) true false .empty) [.add "array(0)" 1, .run]
    EqualByType 2 first second ∧ first.text? 3 false = second.text? 3 false ∧
      ¬ EqualByType 2 zeros (.array 5 [.boolean false, .string "x"]) ∧
      ∃ c, Invariant.catalogued.OfDesk .standard c desk := by
  intro zeros others first second desk
  obtain ⟨-, hdesks, hlaw⟩ := equality_goes_by_type .standard console true .standard
    (.fresh true .plain) true false Invariant.catalogued_empty
  let longer := Value.array 5 [.boolean false, .string "x"]
  let c : Catalogue := ⟨fun id => [zeros, others, first, second, longer][id - 1]?⟩
  have hsmall : ∀ {id : Nat} {x : Float}, c.object id = some (.array id [.number x 0]) →
      (Value.array id [.number x 0]).Listed c :=
    fun entry => .array entry (List.forall_mem_singleton.2 .number)
  have hlarge : ∀ {id : Nat} {v : Value}, v.Listed c → c.object id = some (.array id [v, .string "x"]) →
      (Value.array id [v, .string "x"]).Listed c :=
    fun hv entry => .array entry (List.forall_mem_cons.2 ⟨hv, List.forall_mem_singleton.2 .string⟩)
  have hzeros : ∀ part, zeros.Includes part → part.isNaN = false :=
    isNaN_of_includes_array (List.forall_mem_singleton.2 fun | _, .self => by decide)
  have hnan : ∀ part, first.Includes part → part.isNaN = false :=
    isNaN_of_includes_array (List.forall_mem_cons.2
      ⟨hzeros, List.forall_mem_singleton.2 fun | _, .self => rfl⟩)
  have hpure : ¬ Mixed first second := by
    refine not_mixed_array (List.forall_mem_cons.2 ⟨⟨rfl, ?_⟩, List.forall_mem_singleton.2 ⟨rfl, ?_⟩⟩)
    · exact not_mixed_array (List.forall_mem_singleton.2 ⟨rfl, fun | .here clash => clash⟩)
    · exact fun | .here clash => clash
  obtain ⟨answer, hanswer, hiff, htext⟩ := hlaw c 2 first second (hlarge (hsmall rfl) rfl)
    (hlarge (hsmall rfl) rfl) (by decide) hnan
  have hequal : answer = true := by
    have hdecided : equals? 2 first second = some true := by decide
    exact Option.some.inj (hanswer.symm.trans hdecided)
  -- These arrays clash as well, but they differ in length, and so they are unequal by either notion.
  obtain ⟨answer', hanswer', hiff', -⟩ := hlaw c 2 zeros longer (hsmall rfl) (hlarge .boolean rfl)
    (by decide) hzeros
  have hunequal : answer' = false := by
    have hdecided : equals? 2 zeros longer = some false := by decide
    exact Option.some.inj (hanswer'.symm.trans hdecided)
  obtain ⟨c', -, hdesk⟩ := hdesks [.add "array(0)" 1, .run]
  refine ⟨(hiff.2 ⟨hequal, fun clash => hpure (.here clash)⟩).2, htext hequal hpure 3 false, ?_, c', hdesk⟩
  intro hbytype
  exact Bool.false_ne_true (hunequal ▸ (hiff'.1 ⟨rfl, hbytype⟩).1)

end Session

end CallScript
