import CallScript.Text.Blank

/-!
# Runs of characters

A text that is put together from a run of characters of one class and a rest that does not go on with
that class is taken apart again at the same place. Blanks are the class that matters most: skipping
them takes off exactly the longest run of them at the front.
-/

namespace CallScript.Text

variable {p : Char → Bool} {run rest : List Char}

theorem exists_cons_of_run (hne : run ≠ []) (hrun : ∀ c ∈ run, p c = true) :
    ∃ c more, run = c :: more ∧ p c = true := by
  obtain ⟨c, more, rfl⟩ := List.exists_cons_of_ne_nil hne
  exact ⟨c, more, rfl, hrun c List.mem_cons_self⟩

theorem takeWhile_append_of_stop (hrun : ∀ c ∈ run, p c = true)
    (hstop : rest.head?.any p = false) : (run ++ rest).takeWhile p = run := by
  rw [List.takeWhile_append_of_pos hrun]
  cases rest with
  | nil => simp
  | cons c cs =>
    have hc : p c = false := by simpa using hstop
    simp [hc]

theorem dropWhile_append_of_stop (hrun : ∀ c ∈ run, p c = true)
    (hstop : rest.head?.any p = false) : (run ++ rest).dropWhile p = rest := by
  rw [List.dropWhile_append_of_pos hrun]
  cases rest with
  | nil => simp
  | cons c cs =>
    have hc : p c = false := by simpa using hstop
    simp [hc]

theorem any_head?_dropWhile (p : Char → Bool) (cs : List Char) :
    (cs.dropWhile p).head?.any p = false := by
  have h := List.head?_dropWhile_not p cs
  cases hd : (cs.dropWhile p).head? with
  | none => rfl
  | some c => simpa [hd] using h

theorem of_mem_takeWhile {cs : List Char} {c : Char} (h : c ∈ cs.takeWhile p) : p c = true :=
  List.all_eq_true.1 List.all_takeWhile c h

theorem isBlank_of_mem {blanks : List Char} (h : isBlankText blanks = true) {c : Char}
    (hc : c ∈ blanks) : isBlank c = true :=
  List.all_eq_true.1 h c hc

@[simp] theorem isBlankText_nil : isBlankText [] = true := rfl

@[simp] theorem isBlankText_append (a b : List Char) :
    isBlankText (a ++ b) = (isBlankText a && isBlankText b) := List.all_append

/-- Blanks at the front make no difference to what is left when blanks are skipped. -/
@[simp] theorem skipBlanks_append {blanks : List Char} (h : isBlankText blanks = true)
    (cs : List Char) : skipBlanks (blanks ++ cs) = skipBlanks cs :=
  List.dropWhile_append_of_pos fun _ hc => isBlank_of_mem h hc

theorem skipBlanks_cons {c : Char} (h : isBlank c = false) (cs : List Char) :
    skipBlanks (c :: cs) = c :: cs := by
  rw [skipBlanks, List.dropWhile_cons_of_neg (by simp [h])]

theorem exists_blanks (cs : List Char) :
    ∃ blanks, isBlankText blanks = true ∧ cs = blanks ++ skipBlanks cs := by
  refine ⟨cs.takeWhile isBlank, ?_, (List.takeWhile_append_dropWhile).symm⟩
  exact List.all_takeWhile

/-- A text of blanks has nothing left when blanks are skipped, and no other text has. -/
theorem skipBlanks_eq_nil_iff {cs : List Char} : skipBlanks cs = [] ↔ isBlankText cs = true := by
  constructor
  · intro h
    obtain ⟨blanks, hblanks, hcs⟩ := exists_blanks cs
    rw [h, List.append_nil] at hcs
    rwa [hcs]
  · intro h
    simpa [skipBlanks] using skipBlanks_append h []

theorem exists_blanks_behind (cs : List Char) :
    ∃ blanks, isBlankText blanks = true ∧ cs = trimEnd cs ++ blanks := by
  obtain ⟨blanks, hblanks, hcs⟩ := exists_blanks cs.reverse
  refine ⟨blanks.reverse, ?_, ?_⟩
  · rwa [isBlankText, List.all_reverse]
  · have hreverse := congrArg List.reverse hcs
    rwa [List.reverse_reverse, List.reverse_append] at hreverse

theorem isBlankText_trimEnd (cs : List Char) : isBlankText (trimEnd cs) = isBlankText cs := by
  obtain ⟨blanks, hblanks, hcs⟩ := exists_blanks_behind cs
  conv => rhs; rw [hcs, isBlankText_append, hblanks, Bool.and_true]

end CallScript.Text
