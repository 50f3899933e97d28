import CallScript.Proofs.Grammar.Joined
import CallScript.Proofs.Value.Equivalence
import CallScript.Proofs.Value.NumberText

/-!
# Texts of data

Data are numbers, booleans, strings without a double quote, and arrays of data. Inside an array each
kind of data begins with characters of its own, and what is shown of a value ends where the text goes
on with a comma or a closing bracket, so the text can be taken apart again: data with the same text are
made alike, down to the numbers, which are equal or both not a number.
-/

namespace CallScript.Value

/-- Made of numbers, booleans, strings without a double quote, and arrays. -/
inductive IsData : Value → Prop where
  | number {x : Float} {mark : Nat} : IsData (number x mark)
  | string {text : String} (closed : '"' ∉ text.toList) : IsData (string text)
  | boolean {b : Bool} : IsData (boolean b)
  | array {id : Nat} {elements : List Value} (each : ∀ v ∈ elements, IsData v) :
      IsData (array id elements)

/-- Alike in type and structure at every depth, with the same strings and booleans, and with numbers
that are equal or both not a number. -/
inductive Resembles : Value → Value → Prop where
  | number {x y : Float} {mark mark' : Nat}
      (equal : (x == y) = true ∨ x.isNaN = true ∧ y.isNaN = true) :
      Resembles (number x mark) (number y mark')
  | string {text : String} : Resembles (string text) (string text)
  | boolean {b : Bool} : Resembles (boolean b) (boolean b)
  | array {id id' : Nat} {xs ys : List Value} (each : List.Forall₂ Resembles xs ys) :
      Resembles (array id xs) (array id' ys)

mutual

/-- The text of a value inside an array, character by character. -/
def shown : Value → List Char
  | number x _ => (numberText x).toList
  | string text => '"' :: (text.toList ++ ['"'])
  | boolean b => (if b then "true" else "false").toList
  | array _ elements => '[' :: shownElements elements
  | native op _ => ("<builtin " ++ op.name ++ ">").toList
  | closure _ params _ _ _ => (closureText params).toList

/-- Elements, up to the bracket that closes the array. -/
def shownElements : List Value → List Char
  | [] => [']']
  | v :: rest => shown v ++ shownMore rest

/-- Elements behind another one. -/
def shownMore : List Value → List Char
  | [] => [']']
  | v :: rest => ',' :: ' ' :: (shown v ++ shownMore rest)

end

theorem shownMore_of_texts {vs : List Value} {texts : List String}
    (h : List.Forall₂ (fun v text => text.toList = shown v) vs texts) :
    (texts.map String.toList).flatMap (", ".toList ++ ·) ++ [']'] = shownMore vs := by
  induction h with
  | nil => rfl
  | @cons v text vs texts htext _ ih =>
    rw [List.map_cons, List.flatMap_cons, List.append_assoc, ih, htext]
    simp [shownMore]

theorem shownElements_of_texts {vs : List Value} {texts : List String}
    (h : List.Forall₂ (fun v text => text.toList = shown v) vs texts) :
    (String.intercalate ", " texts ++ "]").toList = shownElements vs := by
  have hclose : "]".toList = [']'] := rfl
  rw [String.toList_append, String.toList_intercalate, hclose]
  cases h with
  | nil => rfl
  | cons htext hrest =>
    rw [List.map_cons, Grammar.intercalate_cons, List.append_assoc, shownMore_of_texts hrest, htext,
      shownElements]

theorem forall₂_of_mapM {α β : Type} {f : α → Option β} {as : List α} {bs : List β}
    (h : as.mapM f = some bs) : List.Forall₂ (fun a b => f a = some b) as bs := by
  induction as generalizing bs with
  | nil =>
    cases h
    exact .nil
  | cons a rest ih =>
    simp only [List.mapM_cons, bind, Option.bind_eq_some_iff, pure, Option.some.injEq] at h
    obtain ⟨b, hb, more, hmore, rfl⟩ := h
    exact .cons hb (ih hmore)

theorem toList_of_text? {depth : Nat} {v : Value} {text : String}
    (h : text? depth true v = some text) : text.toList = shown v := by
  induction depth generalizing v text with
  | zero => cases h
  | succ depth ih =>
    cases v with
    | array id elements =>
      rw [text?_array, Option.bind_eq_some_iff] at h
      obtain ⟨texts, htexts, htext⟩ := h
      cases htext
      have helements := shownElements_of_texts ((forall₂_of_mapM htexts).imp fun _ _ hv => ih hv)
      rw [String.append_assoc, String.toList_append, helements, shown]
      rfl
    | string t =>
      cases h
      simp [shown]
    | _ =>
      cases h
      rfl

/-- Behind a value, a text ends or goes on with a comma or a closing bracket. -/
def Ends (rest : List Char) : Prop :=
  rest.head?.any (fun c => c != ',' && c != ']') = false

theorem ends_nil : Ends [] :=
  rfl

theorem ends_shownMore (vs : List Value) (rest : List Char) : Ends (shownMore vs ++ rest) := by
  cases vs <;> rfl

/-- The kind of data whose text begins so. No text begins with a closing bracket. -/
def kindBegun? (c : Char) : Option Kind :=
  if c = '"' then some .string
  else if c = '[' then some .array
  else if c = 't' ∨ c = 'f' then some .boolean
  else if c = ']' then none
  else some .number

theorem kindBegun?_of_isDigit {c : Char} (h : c.isDigit = true) : kindBegun? c = some .number := by
  have hne : ∀ other : Char, other.isDigit = false → c ≠ other := by
    rintro other hother rfl
    exact absurd h (by simp [hother])
  rw [kindBegun?, if_neg (hne _ (by decide)), if_neg (hne _ (by decide)), if_neg, if_neg]
  · exact hne _ (by decide)
  · exact not_or_intro (hne _ (by decide)) (hne _ (by decide))

theorem isNumeralChar_goesOn {c : Char} (h : Decimal.isNumeralChar c = true) :
    (c != ',' && c != ']') = true := by
  rw [Bool.and_eq_true, bne_iff_ne, bne_iff_ne]
  constructor <;> rintro rfl <;> exact absurd h (by decide)

/-- The text of a number begins like no other text, and does not end early. -/
theorem written_number {d : Decimal.Dyadic} {text : List Char} (h : Decimal.Written d text) :
    text.head?.bind kindBegun? = some .number ∧ ∀ c ∈ text, (c != ',' && c != ']') = true := by
  cases h with
  | nan => exact ⟨rfl, by simp⟩
  | @infinite negative => cases negative <;> exact ⟨rfl, by simp [Decimal.Layout.write.signed]⟩
  | zero => exact ⟨rfl, by simp⟩
  | @finite negative m e numeral positive shape reads =>
    have heach : ∀ c ∈ numeral, (c != ',' && c != ']') = true := fun c hc =>
      isNumeralChar_goesOn (shape.each c hc)
    cases negative with
    | true => exact ⟨rfl, List.forall_mem_cons.2 ⟨by decide, heach⟩⟩
    | false =>
      refine ⟨?_, heach⟩
      have hfirst := shape.first
      cases numeral with
      | nil => cases hfirst
      | cons c rest => exact kindBegun?_of_isDigit hfirst

theorem head?_shown {v : Value} (h : v.IsData) (rest : List Char) :
    (shown v ++ rest).head?.bind kindBegun? = some v.kind := by
  have hshown : (shown v).head?.bind kindBegun? = some v.kind := by
    cases h with
    | @number x mark => exact (written_number (Decimal.written_numberText x)).1
    | string | array => rfl
    | @boolean b => cases b <;> rfl
  cases htext : shown v with
  | nil => simp [htext] at hshown
  | cons c more => simpa [htext] using hshown

/-- Data whose texts begin alike are of one kind. -/
theorem kind_eq_of_shown {a b : Value} {rest rest' : List Char} (ha : a.IsData) (hb : b.IsData)
    (h : shown a ++ rest = shown b ++ rest') : a.kind = b.kind := by
  rw [← Option.some.injEq, ← head?_shown ha rest, ← head?_shown hb rest', h]

theorem number_of_shown {x y : Float} {rest rest' : List Char} (hrest : Ends rest) (hrest' : Ends rest')
    (h : (numberText x).toList ++ rest = (numberText y).toList ++ rest') :
    numberText x = numberText y ∧ rest = rest' := by
  have hx := (written_number (Decimal.written_numberText x)).2
  have hy := (written_number (Decimal.written_numberText y)).2
  have htake := Text.takeWhile_append_of_stop hx hrest
  have hdrop := Text.dropWhile_append_of_stop hx hrest
  rw [h, Text.takeWhile_append_of_stop hy hrest'] at htake
  rw [h, Text.dropWhile_append_of_stop hy hrest'] at hdrop
  exact ⟨String.toList_inj.1 htake.symm, hdrop.symm⟩

theorem string_of_shown {s t : String} {rest rest' : List Char} (hs : '"' ∉ s.toList)
    (ht : '"' ∉ t.toList) (h : s.toList ++ '"' :: rest = t.toList ++ '"' :: rest') :
    s = t ∧ rest = rest' := by
  have hbefore := Decimal.before_append hs rest
  have hbehind := Decimal.behind_append hs rest
  rw [h, Decimal.before_append ht] at hbefore
  rw [h, Decimal.behind_append ht] at hbehind
  exact ⟨String.toList_inj.1 hbefore.symm, hbehind.symm⟩

theorem shownMore_of_shownElements {as bs : List Value} {rest rest' : List Char}
    (ha : ∀ v ∈ as, v.IsData) (hb : ∀ v ∈ bs, v.IsData)
    (h : shownElements as ++ rest = shownElements bs ++ rest') :
    shownMore as ++ rest = shownMore bs ++ rest' := by
  have hclose : ∀ {v : Value} {more rest rest' : List Char}, v.IsData →
      [']'] ++ rest ≠ shown v ++ more ++ rest' := by
    intro v more rest rest' hv heq
    have hhead := head?_shown hv (more ++ rest')
    rw [← List.append_assoc, ← heq] at hhead
    cases hhead
  cases as with
  | nil =>
    cases bs with
    | nil => exact h
    | cons b bs => exact absurd h (hclose (hb b List.mem_cons_self))
  | cons a as =>
    cases bs with
    | nil => exact absurd h.symm (hclose (ha a List.mem_cons_self))
    | cons b bs => exact congrArg (',' :: ' ' :: ·) h

mutual

/-- Data shown by texts that begin alike resemble each other, and the texts go on alike behind them. -/
theorem resembles_of_shown : ∀ {a b : Value} {rest rest' : List Char}, a.IsData → b.IsData →
    Ends rest → Ends rest' → shown a ++ rest = shown b ++ rest' → a.Resembles b ∧ rest = rest'
  | number x mark, b, rest, rest', ha, hb, hrest, hrest', h => by
    have hkind := kind_eq_of_shown ha hb h
    cases hb with
    | @number y mark' =>
      obtain ⟨htext, rfl⟩ := number_of_shown hrest hrest' h
      exact ⟨.number (beq_or_isNaN_of_numberText_eq htext), rfl⟩
    | string | boolean | array => cases hkind
  | string s, b, rest, rest', ha, hb, hrest, hrest', h => by
    have hkind := kind_eq_of_shown ha hb h
    cases ha with
    | string hs =>
    cases hb with
    | string ht =>
      simp only [shown, List.cons_append, List.append_assoc, List.cons.injEq, true_and,
        List.nil_append] at h
      obtain ⟨rfl, rfl⟩ := string_of_shown hs ht h
      exact ⟨.string, rfl⟩
    | number | boolean | array => cases hkind
  | boolean p, b, rest, rest', ha, hb, hrest, hrest', h => by
    have hkind := kind_eq_of_shown ha hb h
    cases hb with
    | @boolean q =>
      cases p <;> cases q <;> simp [shown] at h
      all_goals exact ⟨.boolean, h⟩
    | number | string | array => cases hkind
  | array i xs, b, rest, rest', ha, hb, hrest, hrest', h => by
    have hkind := kind_eq_of_shown ha hb h
    cases ha with
    | array hxs =>
    cases hb with
    | @array j ys hys =>
      rw [shown, shown, List.cons_append, List.cons_append, List.cons.injEq] at h
      obtain ⟨hall, hrest⟩ :=
        resemble_of_shownMore hxs hys (shownMore_of_shownElements hxs hys h.2)
      exact ⟨.array hall, hrest⟩
    | number | string | boolean => cases hkind
  | native op home, b, rest, rest', ha, hb, hrest, hrest', h => nomatch ha
  | closure .., b, rest, rest', ha, hb, hrest, hrest', h => nomatch ha

theorem resemble_of_shownMore : ∀ {as bs : List Value} {rest rest' : List Char},
    (∀ v ∈ as, v.IsData) → (∀ v ∈ bs, v.IsData) →
      shownMore as ++ rest = shownMore bs ++ rest' → List.Forall₂ Resembles as bs ∧ rest = rest'
  | [], [], rest, rest', ha, hb, h => ⟨.nil, by simpa [shownMore] using h⟩
  | [], b :: bs, rest, rest', ha, hb, h => by simp [shownMore] at h
  | a :: as, [], rest, rest', ha, hb, h => by simp [shownMore] at h
  | a :: as, b :: bs, rest, rest', ha, hb, h => by
    obtain ⟨hfirst, hmore⟩ := List.forall_mem_cons.1 ha
    obtain ⟨hfirst', hmore'⟩ := List.forall_mem_cons.1 hb
    simp only [shownMore, List.cons_append, List.append_assoc, List.cons.injEq, true_and] at h
    obtain ⟨hab, hrest⟩ := resembles_of_shown hfirst hfirst' (ends_shownMore as rest)
      (ends_shownMore bs rest') h
    obtain ⟨hall, hend⟩ := resemble_of_shownMore hmore hmore' hrest
    exact ⟨.cons hab hall, hend⟩

end

theorem resembles_of_text? {depth depth' : Nat} {a b : Value} {text : String} (ha : a.IsData)
    (hb : b.IsData) (h : a.text? depth true = some text) (h' : b.text? depth' true = some text) :
    a.Resembles b := by
  have hshown : shown a ++ [] = shown b ++ [] := by
    rw [← toList_of_text? h, ← toList_of_text? h']
  exact (resembles_of_shown ha hb ends_nil ends_nil hshown).1

theorem mapM_isSome {α β : Type} {f : α → Option β} {as : List α}
    (h : ∀ a ∈ as, (f a).isSome) : (as.mapM f).isSome := by
  induction as with
  | nil => rfl
  | cons a rest ih =>
    obtain ⟨hhead, hrest⟩ := List.forall_mem_cons.1 h
    obtain ⟨b, hb⟩ := Option.isSome_iff_exists.1 hhead
    obtain ⟨more, hmore⟩ := Option.isSome_iff_exists.1 (ih hrest)
    simp [List.mapM_cons, hb, hmore]

theorem text?_isSome {depth : Nat} {v : Value} (h : v.nesting < depth) (nested : Bool) :
    (v.text? depth nested).isSome := by
  induction depth generalizing v nested with
  | zero => exact absurd h (Nat.not_lt_zero _)
  | succ depth ih =>
    cases v with
    | array id elements =>
      rw [nesting, Nat.succ_lt_succ_iff] at h
      have hall : ∀ v ∈ elements, (v.text? depth true).isSome := fun v hv =>
        ih (Nat.lt_of_le_of_lt (nesting_le_nestingAll hv) h) true
      obtain ⟨texts, htexts⟩ := Option.isSome_iff_exists.1 (mapM_isSome hall)
      rw [text?_array, htexts]
      rfl
    | _ => rfl

end CallScript.Value
