import CallScript.Proofs.Eval.Strings
import CallScript.Proofs.Session.Invariant
import CallScript.Proofs.Value.Shown

/-!
# Strings of sessions

A string literal ends at the first double quote, so no program holds a string with one in it, and no
evaluation makes one. Strings in arrays are printed between double quotes. So what programs print of
data that a session can come to is unambiguous.
-/

namespace CallScript

def Unquoted (text : String) : Prop :=
  '"' ∉ text.toList

theorem Unquoted.append (s t : String) (hs : Unquoted s) (ht : Unquoted t) : Unquoted (s ++ t) := by
  rw [Unquoted, String.toList_append, List.mem_append]
  exact not_or_intro hs ht

theorem Expr.WellFormed.eachString {e : Expr} (h : e.WellFormed) : e.EachString Unquoted := by
  induction h with
  | string closed => exact .literal (.string closed)
  | number _ => exact .literal .number
  | word _ => exact .word
  | apply _ _ hfirst hrest => exact .apply hfirst hrest

variable {p : String → Prop} {limits : Limits} {desk : Desk}

namespace Desk

/-- Every string in the world, in the queue and in the results has the property. -/
structure EachString (p : String → Prop) (desk : Desk) : Prop where
  world : desk.world.EachString p
  queue : ∀ item ∈ desk.session.queue, item.program.EachString p
  results : ∀ v ∈ desk.session.results, v.EachString p

theorem eachString_iff {κ : Type} [Preorder κ] (hjoin : ∀ s t, p s → p t → p (s ++ t)) (k : κ)
    {forms : Registry} (hread : desk.session.forms = forms) :
    desk.EachString p ↔ (Invariant.eachString p hjoin).OfDesk forms k desk := by
  constructor
  · exact fun h => ⟨hread, (World.eachString_iff hjoin k).1 h.world, h.queue, h.results⟩
  · exact fun h => ⟨(World.eachString_iff hjoin k).2 h.world, h.queue, h.results⟩

end Desk

namespace Session

theorem eachString_after (h : desk.EachString Unquoted) (steps : List Step) :
    (after limits desk steps).EachString Unquoted := by
  have hdesk := (Desk.eachString_iff Unquoted.append () rfl).1 h
  obtain ⟨_, -, hafter⟩ := hdesk.after limits (fun _ e he => he.eachString) steps
  exact (Desk.eachString_iff Unquoted.append () hafter.read).2 hafter

theorem eachString_start (path : String) (interactive : Bool) (forms : Registry) (reporter : Reporter)
    (writes verbose : Bool) {w : World} (hw : w.EachString Unquoted) :
    (start path interactive forms reporter writes verbose w).EachString Unquoted := by
  have hworld := (World.eachString_iff Unquoted.append ()).1 hw
  have hdesk := Invariant.OfDesk.start path interactive forms reporter writes verbose hworld
  exact (Desk.eachString_iff Unquoted.append () hdesk.read).2 hdesk

/-- What programs print is unambiguous on everything that they can compute. No program holds a string
with a double quote. Where no frame does either, evaluation gives none and leaves none in any frame,
and no steps of a session bring one into its world, its queue or its results. Data, which are made of
numbers, booleans, arrays and strings without a double quote, have a text wherever one may look deep
enough, and those with the same text inside an array are alike down to their numbers, which are equal
or both not a number. -/
theorem texts_are_unambiguous (limits : Limits) (path : String) (interactive : Bool)
    (forms : Registry) (reporter : Reporter) (writes verbose : Bool) {w : World}
    (hw : w.EachString Unquoted) :
    (∀ depth source program, Grammar.parse depth source = .ok program →
      program.EachString Unquoted) ∧
    (∀ rounds depth forms frame e w, e.EachString Unquoted → w.EachString Unquoted →
      (stateAfter (eval rounds depth forms frame e) w).EachString Unquoted ∧
        ∀ v w', eval rounds depth forms frame e w = .ok v w' → v.EachString Unquoted) ∧
    (∀ steps, (after limits (start path interactive forms reporter writes verbose w)
      steps).EachString Unquoted) ∧
    (∀ depth (a : Value), a.nesting < depth → (a.text? depth true).isSome) ∧
    ∀ depth depth' text (a b : Value), a.IsData → b.IsData →
      a.text? depth true = some text → b.text? depth' true = some text → a.Resembles b := by
  refine ⟨fun _ _ _ h => (Grammar.wellFormed_of_parse h).eachString, ?_, ?_, ?_, ?_⟩
  · intro rounds depth forms frame e w he hw
    exact eval_keepsStrings Unquoted.append rounds depth forms frame e he w hw
  · exact eachString_after (eachString_start path interactive forms reporter writes verbose hw)
  · exact fun _ _ h => Value.text?_isSome h true
  · exact fun _ _ _ _ _ ha hb h h' => Value.resembles_of_text? ha hb h h'

/-- A program that puts a bracket into a string, and two arrays with the same text, of which one holds
a negative zero. -/
theorem texts_are_unambiguous_with_brackets :
    let desk := after .standard
      (start console true .standard (.fresh true .plain) true false .empty)
      [.add "array(0, +(\"1], \", \"[2\"))" 1, .run]
    let first := Value.array 1 [.number 0 0, .string "1], [2", .array 2 []]
    let second := Value.array 3 [.number (-0) 0, .string "1], [2", .array 4 []]
    World.EachString Unquoted .empty ∧ desk.EachString Unquoted ∧
      first.text? 3 true = some "[0, \"1], [2\", []]" ∧
      second.text? 3 true = some "[0, \"1], [2\", []]" ∧ first.Resembles second := by
  intro desk first second
  obtain ⟨-, -, hdesks, -, htexts⟩ := texts_are_unambiguous .standard console true .standard
    (.fresh true .plain) true false World.EachString.empty
  have hdata : ∀ (x : Float) (i j : Nat),
      (Value.array i [.number x 0, .string "1], [2", .array j []]).IsData := by
    intro x i j
    refine .array (List.forall_mem_cons.2 ⟨.number, List.forall_mem_cons.2 ⟨.string (by decide), ?_⟩⟩)
    exact List.forall_mem_singleton.2 (.array fun _ => nofun)
  have hfirst : first.text? 3 true = some "[0, \"1], [2\", []]" := by decide +kernel
  have hsecond : second.text? 3 true = some "[0, \"1], [2\", []]" := by decide +kernel
  exact ⟨World.EachString.empty, hdesks _, hfirst, hsecond,
    htexts 3 3 _ first second (hdata 0 1 2) (hdata (-0) 3 4) hfirst hsecond⟩

end Session

end CallScript
