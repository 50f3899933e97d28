import CallScript.Store.Frame

/-!
# Bindings of a frame

Binding a name changes what that name is bound to and nothing else, and keeps the names in the order
in which they came. Binding pairs one after the other, as a call does with its parameters, therefore
gives each name once, with the last of the values it is paired with.
-/

namespace CallScript.Bindings

variable {name other : String} {value : Value} {pairs : List (String × Value)}

theorem lookup_bind_self (name : String) (value : Value) (bindings : Bindings) :
    (bind name value bindings).lookup name = some value := by
  induction bindings with
  | nil => simp [bind]
  | cons pair rest ih =>
    obtain ⟨known, old⟩ := pair
    by_cases h : known = name
    · simp [bind, h]
    · simp only [bind, if_neg h, List.lookup_cons, beq_false_of_ne (Ne.symm h)]
      exact ih

theorem lookup_bind_of_ne (h : other ≠ name) (value : Value) (bindings : Bindings) :
    (bind name value bindings).lookup other = bindings.lookup other := by
  induction bindings with
  | nil => simp [bind, List.lookup_cons, beq_false_of_ne h]
  | cons pair rest ih =>
    obtain ⟨known, old⟩ := pair
    by_cases hknown : known = name
    · subst hknown
      simp [bind, List.lookup_cons, beq_false_of_ne h]
    · simp only [bind, if_neg hknown, List.lookup_cons, ih]

theorem lookup_of_not_mem {bindings : Bindings} (h : name ∉ bindings.map Prod.fst) :
    bindings.lookup name = none := by
  rw [List.lookup_eq_none_iff]
  rintro ⟨known, v⟩ hknown
  rw [bne_iff_ne]
  rintro rfl
  exact h (List.mem_map_of_mem hknown)

theorem lookup_of_mem {bindings : Bindings} (hnodup : (bindings.map Prod.fst).Nodup)
    {pair : String × Value} (h : pair ∈ bindings) : bindings.lookup pair.1 = some pair.2 := by
  induction bindings with
  | nil => cases h
  | cons first rest ih =>
    obtain ⟨hnew, hnodup⟩ := List.nodup_cons.1 hnodup
    rcases List.mem_cons.1 h with rfl | hrest
    · exact List.lookup_cons_self
    · have hne : pair.1 ≠ first.1 := fun heq => hnew (heq ▸ List.mem_map_of_mem hrest)
      rw [List.lookup_cons, beq_false_of_ne hne]
      exact ih hnodup hrest

theorem names_bind (name : String) (value : Value) (bindings : Bindings) :
    (bind name value bindings).map Prod.fst =
      if name ∈ bindings.map Prod.fst then bindings.map Prod.fst
      else bindings.map Prod.fst ++ [name] := by
  induction bindings with
  | nil => simp [bind]
  | cons pair rest ih =>
    obtain ⟨known, old⟩ := pair
    by_cases h : known = name
    · simp [bind, h]
    · simp only [bind, if_neg h, List.map_cons, ih, List.mem_cons, Ne.symm h, false_or]
      split <;> rfl

/-- Each name of the pairs once, in the order in which they first come, with the value that it is
paired with last. -/
structure Pairs (pairs : List (String × Value)) (bindings : Bindings) : Prop where
  names : bindings.map Prod.fst = (pairs.map Prod.fst).eraseDups
  last : ∀ name, bindings.lookup name = pairs.reverse.lookup name

theorem ofPairs_append (pairs : List (String × Value)) (name : String) (value : Value) :
    ofPairs (pairs ++ [(name, value)]) = bind name value (ofPairs pairs) := by
  simp [ofPairs]

theorem eraseDups_append_singleton (names : List String) (name : String) :
    (names ++ [name]).eraseDups =
      if name ∈ names.eraseDups then names.eraseDups else names.eraseDups ++ [name] := by
  rw [List.eraseDups_append]
  by_cases h : name ∈ names <;> simp [List.removeAll, List.mem_eraseDups, List.eraseDups_cons, h]

theorem ofPairs_pairs (pairs : List (String × Value)) : Pairs pairs (ofPairs pairs) := by
  rw [← List.reverse_reverse pairs]
  induction pairs.reverse with
  | nil => exact ⟨rfl, fun _ => rfl⟩
  | cons pair before ih =>
    obtain ⟨name, value⟩ := pair
    obtain ⟨names, last⟩ := ih
    rw [List.reverse_cons, ofPairs_append]
    constructor
    · rw [names_bind, names, List.map_append]
      exact (eraseDups_append_singleton _ name).symm
    · intro other
      rw [List.reverse_append, List.reverse_singleton, List.singleton_append, List.lookup_cons]
      by_cases h : other = name
      · rw [h, lookup_bind_self, beq_self_eq_true]
      · rw [lookup_bind_of_ne h, last, beq_false_of_ne h]

theorem nodup_eraseDups (names : List String) : names.eraseDups.Nodup := by
  induction h : names.length using Nat.strongRecOn generalizing names with
  | ind n ih =>
    cases names with
    | nil => simp
    | cons name rest =>
      have hlength := List.length_filter_le (fun other => !other == name) rest
      rw [List.length_cons] at h
      rw [List.eraseDups_cons, List.nodup_cons]
      refine ⟨?_, ih _ (by omega) _ rfl⟩
      simp [List.mem_eraseDups]

/-- Names and what they mean determine the bindings, if no name comes twice. -/
theorem eq_of_names_of_lookup {first second : Bindings} (hnodup : (first.map Prod.fst).Nodup)
    (hnames : first.map Prod.fst = second.map Prod.fst)
    (hlookup : ∀ name, first.lookup name = second.lookup name) : first = second := by
  induction first generalizing second with
  | nil =>
    cases second with
    | nil => rfl
    | cons pair rest => cases hnames
  | cons pair rest ih =>
    cases second with
    | nil => cases hnames
    | cons pair' rest' =>
      obtain ⟨name, value⟩ := pair
      obtain ⟨name', value'⟩ := pair'
      simp only [List.map_cons, List.cons.injEq] at hnames
      obtain ⟨rfl, hrest⟩ := hnames
      obtain ⟨hnew, hnodup⟩ := List.nodup_cons.1 hnodup
      have hvalue : value = value' := by simpa using hlookup name
      have htail : rest = rest' := by
        refine ih hnodup hrest fun other => ?_
        by_cases h : other = name
        · rw [h, lookup_of_not_mem hnew, lookup_of_not_mem (hrest ▸ hnew)]
        · have hother := hlookup other
          rwa [List.lookup_cons, List.lookup_cons, beq_false_of_ne h] at hother
      rw [hvalue, htail]

/-- Binding pairs one after the other gives what the last value of each name says. -/
theorem pairs_iff {bindings : Bindings} : Pairs pairs bindings ↔ bindings = ofPairs pairs := by
  constructor
  · intro h
    have hpairs := ofPairs_pairs pairs
    refine eq_of_names_of_lookup ?_ (h.names.trans hpairs.names.symm) fun name => ?_
    · rw [h.names]
      exact nodup_eraseDups _
    · rw [h.last, hpairs.last]
  · rintro rfl
    exact ofPairs_pairs pairs

end CallScript.Bindings
