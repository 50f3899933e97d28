import CallScript.CommandLine.Options

/-!
# Command lines with one argument

A text that is attached to the option for evaluation is taken as it is, unless it is the separator. An
argument that does not begin with a dash is the file.
-/

namespace CallScript.CommandLine

theorem splitAtEquals_append {front value : List Char} (h : '=' ∉ front) :
    splitAtEquals (front ++ '=' :: value) = (front, some value) := by
  have hfront : ∀ c ∈ front, (c != '=') = true := by
    intro c hc
    exact bne_iff_ne.2 fun heq => h (heq ▸ hc)
  rw [splitAtEquals, List.dropWhile_append_of_pos hfront, List.takeWhile_append_of_pos hfront]
  simp

/-- No option has an equals sign in its name. -/
theorem named_of_eq_mem {cs : List Char} (h : '=' ∈ cs) (attached : Option (List Char)) :
    named cs attached = none := by
  have hnames : ∀ entry ∈ switchNames, '=' ∉ entry.1.toList := by decide
  rw [named, Option.map_eq_none_iff, List.find?_eq_none]
  intro entry hentry heq
  exact hnames entry hentry (of_decide_eq_true heq ▸ h)

theorem classify_eval (text : String) :
    classify ("--eval=" ++ text) = .ok (.option .eval false (some text.toList)) := by
  have htext : ("--eval=" ++ text).toList = "--eval".toList ++ '=' :: text.toList := by
    rw [String.toList_append]
    rfl
  have hwhole : named ("--eval".toList ++ '=' :: text.toList) none = none :=
    named_of_eq_mem (by simp) none
  have hsplit := @splitAtEquals_append "--eval".toList text.toList (by decide)
  rw [classify, htext]
  simp only [hsplit, hwhole]
  rfl

theorem consume_eval (value : List Char) (settings : Settings) (extras : List String) :
    consume [.option .eval false (some value)] ⟨settings, extras⟩ =
      .ok ⟨{ settings with eval := some (attachedText value) }, extras⟩ := by
  -- The cases of `consume` look at what follows an argument too, so it has no equations to rewrite with.
  delta consume
  cases value <;> rfl

theorem parse_eval {text : String} (h : text ≠ "--") :
    parse ["--eval=" ++ text] = .ok ⟨some (some text), none, false⟩ := by
  have hnotSeparator : "--eval=" ++ text ≠ "--" := by
    intro heq
    have hlength := congrArg (fun s => s.toList.length) heq
    simp at hlength
  have hvalue : text.toList ≠ ['-', '-'] := fun heq => h (String.toList_inj.1 heq)
  have hattached : attachedText text.toList = some text := by
    rw [attachedText, if_neg hvalue, String.ofList_toList]
  simp only [parse, classifyAll, if_neg hnotSeparator, classify_eval, bind, Except.bind, pure,
    Except.pure, consume_eval, hattached]
  rfl

theorem classify_path {path : String} (h : path.toList.head? ≠ some '-') :
    classify path = .ok (.plain path) := by
  rw [classify]
  split
  · next hpath =>
    rw [hpath] at h
    exact absurd rfl h
  · rfl

theorem parse_path {path : String} (h : path.toList.head? ≠ some '-') :
    parse [path] = .ok ⟨none, some path, false⟩ := by
  have hnotSeparator : path ≠ "--" := by
    rintro rfl
    exact h rfl
  simp only [parse, classifyAll, if_neg hnotSeparator, classify_path h]
  rfl

end CallScript.CommandLine
