import CallScript.Value.Equality
import CallScript.Value.Text

/-!
# Looking deeper

How deep arrays may be looked into decides only whether there is an answer. Once there is one, it
stays the same at every greater depth, and what has room in some levels has room in more.
-/

namespace CallScript.Value

theorem mapM_eq_some_of_forall {α β : Type} {f g : α → Option β} {as : List α} {bs : List β}
    (hfg : ∀ a ∈ as, ∀ b, f a = some b → g a = some b) (h : as.mapM f = some bs) :
    as.mapM g = some bs := by
  induction as generalizing bs with
  | nil => exact h
  | cons a rest ih =>
    obtain ⟨hhead, htail⟩ := List.forall_mem_cons.1 hfg
    simp only [List.mapM_cons, bind, Option.bind_eq_some_iff, pure, Option.some.injEq] at h ⊢
    obtain ⟨b, hb, more, hmore, rfl⟩ := h
    exact ⟨b, hhead b hb, more, ih htail hmore, rfl⟩

theorem text?_array (depth : Nat) (nested : Bool) (id : Nat) (elements : List Value) :
    text? (depth + 1) nested (array id elements) =
      (elements.mapM (text? depth true)).bind fun texts =>
        some ("[" ++ String.intercalate ", " texts ++ "]") :=
  rfl

theorem text?_succ {depth : Nat} {nested : Bool} {v : Value} {text : String}
    (h : text? depth nested v = some text) : text? (depth + 1) nested v = some text := by
  induction depth generalizing nested v text with
  | zero => cases h
  | succ depth ih =>
    cases v with
    | array id elements =>
      rw [text?_array, Option.bind_eq_some_iff] at h ⊢
      obtain ⟨texts, htexts, htext⟩ := h
      exact ⟨texts, mapM_eq_some_of_forall (fun v _ s hs => ih hs) htexts, htext⟩
    | _ => exact h

theorem text?_mono {depth depth' : Nat} (hle : depth ≤ depth') {nested : Bool} {v : Value}
    {text : String} (h : text? depth nested v = some text) : text? depth' nested v = some text := by
  induction hle with
  | refl => exact h
  | step _ ih => exact text?_succ ih

theorem fits_mono {room room' : Nat} (hle : room ≤ room') {v : Value} (h : v.fits room = true) :
    v.fits room' = true := by
  induction room generalizing room' v with
  | zero =>
    cases v with
    | array id elements => cases h
    | _ => cases room' <;> rfl
  | succ room ih =>
    obtain ⟨more, rfl⟩ : ∃ more, room' = more + 1 := ⟨room' - 1, by omega⟩
    cases v with
    | array id elements =>
      simp only [fits, List.all_eq_true] at h ⊢
      exact fun v hv => ih (Nat.le_of_succ_le_succ hle) (h v hv)
    | _ => rfl

theorem allPairs_eq_some_of_forall {ask ask' : Value → Value → Option Bool}
    (hask : ∀ x y b, ask x y = some b → ask' x y = some b) {xs ys : List Value} {answer : Bool}
    (h : allPairs ask xs ys = some answer) : allPairs ask' xs ys = some answer := by
  induction xs generalizing ys with
  | nil => exact h
  | cons x xs ih =>
    cases ys with
    | nil => exact h
    | cons y ys =>
      cases hxy : ask x y with
      | none => simp [allPairs, hxy] at h
      | some b =>
        have hxy' := hask x y b hxy
        cases b with
        | false => simpa [allPairs, hxy, hxy'] using h
        | true =>
          simp only [allPairs, hxy] at h
          simp only [allPairs, hxy', ih h]

theorem matches?_succ {depth : Nat} {a b : Value} {answer : Bool}
    (h : matches? depth a b = some answer) : matches? (depth + 1) a b = some answer := by
  induction depth generalizing a b answer with
  | zero =>
    unfold matches? at h ⊢
    split at h <;> try exact h
    split at h
    · next hlength => simpa [hlength] using h
    · cases h
  | succ depth ih =>
    unfold matches? at h ⊢
    split at h <;> try exact h
    split at h
    · next hlength => simpa [hlength] using h
    · next hlength =>
      simp only [hlength, if_false]
      refine allPairs_eq_some_of_forall (fun x y b hxy => ?_) h
      split at hxy
      · next hsame => rwa [if_pos hsame]
      · next hsame =>
        rw [if_neg hsame]
        exact ih hxy

theorem matches?_mono {depth depth' : Nat} (hle : depth ≤ depth') {a b : Value} {answer : Bool}
    (h : matches? depth a b = some answer) : matches? depth' a b = some answer := by
  induction hle with
  | refl => exact h
  | step _ ih => exact matches?_succ ih

theorem equals?_mono {depth depth' : Nat} (hle : depth ≤ depth') {a b : Value} {answer : Bool}
    (h : equals? depth a b = some answer) : equals? depth' a b = some answer := by
  rw [equals?] at h ⊢
  split at h
  · next hkind => rw [if_pos hkind, matches?_mono hle h]
  · next hkind => rw [if_neg hkind, h]

end CallScript.Value

namespace CallScript.Expr

theorem fits_mono {room room' : Nat} (hle : room ≤ room') {e : Expr} (h : e.fits room = true) :
    e.fits room' = true := by
  induction room generalizing room' e with
  | zero => cases h
  | succ room ih =>
    obtain ⟨more, rfl⟩ : ∃ more, room' = more + 1 := ⟨room' - 1, by omega⟩
    have hmore := Nat.le_of_succ_le_succ hle
    cases e with
    | apply operator args =>
      simp only [fits, Bool.and_eq_true, List.all_eq_true] at h ⊢
      exact ⟨ih hmore h.1, fun e he => ih hmore (h.2 e he)⟩
    | literal v => exact Value.fits_mono hmore h
    | _ => rfl

end CallScript.Expr
