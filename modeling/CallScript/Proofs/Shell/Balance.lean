import CallScript.Proofs.Grammar.Acceptance
import CallScript.Shell.Line

/-!
# Where reading stops and what is open there

An entry is unfinished if it leaves a string or a parenthesis open. Reading and this count of
parentheses agree: what is read as an expression opens as many as it closes, and where a text is refused,
as many are open as there are argument lists under way. So a text that is refused at its very end is
blank or unfinished.
-/

namespace CallScript.Grammar

open Text Shell

variable {depth : Nat} {cs mid rest inner blanks : List Char} {e : Expr} {es : List Expr}

/-- What remains of a text behind a part in which that many more parentheses are opened than closed,
those in strings apart, and no string is left open. -/
structure Passes (opened : Int) (cs rest : List Char) : Prop where
  suffix : rest <:+ cs
  balance : ∀ b, leavesOpen false b cs = leavesOpen false (b + opened) rest

namespace Passes

theorem refl (cs : List Char) : Passes 0 cs cs :=
  ⟨List.suffix_rfl, fun b => by rw [Int.add_zero]⟩

theorem trans {i j : Int} (h : Passes i cs mid) (h' : Passes j mid rest) :
    Passes (i + j) cs rest :=
  ⟨h'.suffix.trans h.suffix, fun b => by rw [h.balance, h'.balance, Int.add_assoc]⟩

theorem opening (inner : List Char) : Passes 1 ('(' :: inner) inner :=
  ⟨List.suffix_cons .., fun _ => rfl⟩

theorem closing (rest : List Char) : Passes (-1) (')' :: rest) rest :=
  ⟨List.suffix_cons .., fun _ => rfl⟩

theorem plain {run : List Char} (h : ∀ c ∈ run, c ≠ '"' ∧ c ≠ '(' ∧ c ≠ ')') (rest : List Char) :
    Passes 0 (run ++ rest) rest := by
  induction run with
  | nil => exact refl rest
  | cons c run ih =>
    obtain ⟨⟨hquote, hopen, hclose⟩, hrun⟩ := List.forall_mem_cons.1 h
    have hfirst : Passes 0 (c :: (run ++ rest)) (run ++ rest) := by
      refine ⟨List.suffix_cons .., fun b => ?_⟩
      rw [Int.add_zero, leavesOpen] <;> simp_all
    exact hfirst.trans (ih hrun)

theorem leavesOpen_content {content : List Char} (h : '"' ∉ content) (b : Int) (rest : List Char) :
    leavesOpen true b (content ++ '"' :: rest) = leavesOpen false b rest := by
  induction content with
  | nil => rfl
  | cons c content ih =>
    have hc : c ≠ '"' := fun hc => h (hc ▸ List.mem_cons_self)
    rw [List.cons_append, leavesOpen]
    · exact ih fun hmem => h (List.mem_cons_of_mem _ hmem)
    · exact hc

theorem string {content : List Char} (h : '"' ∉ content) (rest : List Char) :
    Passes 0 ('"' :: (content ++ '"' :: rest)) rest := by
  refine ⟨⟨'"' :: (content ++ ['"']), by simp⟩, fun b => ?_⟩
  rw [Int.add_zero, leavesOpen, Bool.not_false, leavesOpen_content h]

theorem blank (h : isBlankText blanks = true) (rest : List Char) : Passes 0 (blanks ++ rest) rest := by
  refine plain (fun c hc => ?_) rest
  have hblank := isBlank_of_mem h hc
  refine ⟨?_, ?_, ?_⟩ <;> rintro rfl <;> exact absurd hblank (by decide)

theorem skipBlanks (cs : List Char) : Passes 0 cs (skipBlanks cs) := by
  obtain ⟨blanks, hblanks, hcs⟩ := exists_blanks cs
  have h := blank hblanks (Text.skipBlanks cs)
  rwa [← hcs] at h

theorem comma (rest : List Char) : Passes 0 (',' :: rest) rest :=
  @plain [','] (by simp) rest

end Passes

theorem Primary.passes (h : Primary cs e rest) : Passes 0 cs rest := by
  cases h with
  | string closed => exact .string closed rest
  | number numeral =>
    rw [numeral.eq]
    refine .plain (fun c hc => ?_) rest
    have hdigit := numeral.digit c hc
    refine ⟨?_, ?_, ?_⟩ <;> rintro rfl <;> exact absurd hdigit (by decide)
  | word noNumber nonempty char longest =>
    refine .plain (fun c hc => ?_) rest
    have hchar := char c hc
    refine ⟨?_, ?_, ?_⟩ <;> rintro rfl <;> exact absurd hchar (by decide)

mutual

/-- An expression closes the parentheses that it opens. -/
theorem Expression.passes {cs rest : List Char} {e : Expr} : Expression cs e rest → Passes 0 cs rest
  | .primary blank first => (Passes.blank blank _).trans first.passes
  | .call before blank list =>
    (before.passes.trans ((Passes.blank blank _).trans (Passes.opening _))).trans list.passes

/-- An argument list closes the one parenthesis that was opened before it. -/
theorem Arguments.passes {cs rest : List Char} {es : List Expr} :
    Arguments cs es rest → Passes (-1) cs rest
  | .empty blank => (Passes.blank blank _).trans (Passes.closing rest)
  | .nonempty first more => first.passes.trans more.passes

theorem MoreArguments.passes {cs rest : List Char} {es : List Expr} :
    MoreArguments cs es rest → Passes (-1) cs rest
  | .close blank => (Passes.blank blank _).trans (Passes.closing rest)
  | .closeAfterComma blank blank' =>
    ((Passes.blank blank _).trans (Passes.comma _)).trans
      ((Passes.blank blank' _).trans (Passes.closing rest))
  | .next blank first more =>
    ((Passes.blank blank _).trans (Passes.comma _)).trans (first.passes.trans more.passes)

end

theorem passes_of_readExpression (h : readExpression depth cs = .ok (e, rest)) : Passes 0 cs rest := by
  obtain ⟨-, behind, hexpr, rfl⟩ := derivesWhatIsRead depth h
  exact hexpr.passes.trans (.skipBlanks behind)

theorem passes_of_readArguments (h : readArguments depth cs = .ok (es, rest)) :
    Passes (-1) cs rest :=
  (readArguments_sound (derivesWhatIsRead depth) h).2.passes

/-- The text is refused at a place where at least that many argument lists are under way. Blanks are
skipped before it. -/
def RefusedAt (least : Int) (cs rest : List Char) : Prop :=
  Text.skipBlanks rest = rest ∧ ∃ opened, least ≤ opened ∧ Passes opened cs rest

theorem RefusedAt.after {i least : Int} (hpasses : Passes i cs mid) (h : RefusedAt least mid rest) :
    RefusedAt (i + least) cs rest := by
  obtain ⟨hstart, opened, hopened, hrest⟩ := h
  exact ⟨hstart, i + opened, by omega, hpasses.trans hrest⟩

theorem RefusedAt.mono {i j : Int} (h : RefusedAt i cs rest) (hij : j ≤ i) : RefusedAt j cs rest := by
  obtain ⟨hstart, opened, hopened, hrest⟩ := h
  exact ⟨hstart, opened, by omega, hrest⟩

/-- An expression is refused at its first character that is no blank, or within an argument list. -/
def RefusesExpressions (depth : Nat) : Prop :=
  ∀ {cs rest : List Char} {refusal : Refusal},
    readExpression depth cs = .error (.refused refusal rest) →
    rest = Text.skipBlanks cs ∨ RefusedAt 1 cs rest

theorem refused_skipBlanks (cs : List Char) : RefusedAt 0 cs (Text.skipBlanks cs) :=
  ⟨skipBlanks_skipBlanks cs, 0, Int.le_refl 0, .skipBlanks cs⟩

theorem refused_of_readArguments (hread : RefusesExpressions depth) {cs rest : List Char}
    {refusal : Refusal} (h : readArguments depth cs = .error (.refused refusal rest)) :
    RefusedAt 0 cs rest := by
  induction hn : cs.length using Nat.strongRecOn generalizing cs with
  | ind n ih =>
    by_cases hhead : (Text.skipBlanks cs).head? = some ')'
    · obtain ⟨behind, hclose⟩ := List.head?_eq_some_iff.1 hhead
      rw [readArguments_close hclose] at h
      cases h
    · rw [readArguments_first hhead] at h
      cases hfirst : readExpression depth cs with
      | error failure =>
        simp only [hfirst, Except.error.injEq] at h
        rcases hread (h ▸ hfirst) with rfl | hrefused
        · exact refused_skipBlanks cs
        · exact hrefused.mono (by decide)
      | ok read =>
        obtain ⟨e, left⟩ := read
        have hpasses := passes_of_readExpression hfirst
        have hlength := length_readExpression_lt hfirst
        simp only [hfirst] at h
        unfold readMore at h
        split at h
        · cases h
        · next inner hcomma =>
          cases hmore : readArguments depth inner with
          | ok list => simp [hmore] at h
          | error failure =>
            simp only [hmore, Except.error.injEq] at h
            have hinner := length_lt_of_skipBlanks hcomma
            have hrest := ih _ (by omega) (h ▸ hmore) rfl
            have hskip : Passes 0 left inner := by
              have hskip := Passes.skipBlanks left
              rw [hcomma] at hskip
              exact hskip.trans (.comma inner)
            exact (hrest.after hskip).after hpasses
        · cases h
          exact (refused_skipBlanks left).after hpasses

theorem refused_of_readCalls (hread : RefusesExpressions depth) {cs rest : List Char} {e : Expr}
    {refusal : Refusal} (h : readCalls depth e cs = .error (.refused refusal rest)) :
    RefusedAt 1 cs rest := by
  induction hn : cs.length using Nat.strongRecOn generalizing cs e with
  | ind n ih =>
    by_cases hhead : (Text.skipBlanks cs).head? = some '('
    · obtain ⟨inner, hopen⟩ := List.head?_eq_some_iff.1 hhead
      have hinner := length_lt_of_skipBlanks hopen
      have hpasses : Passes 1 cs inner := by
        have hskip := Passes.skipBlanks cs
        rw [hopen] at hskip
        exact hskip.trans (.opening inner)
      rw [readCalls_open hopen] at h
      cases hlist : readArguments depth inner with
      | error failure =>
        simp only [hlist, Except.error.injEq] at h
        exact (refused_of_readArguments hread (h ▸ hlist)).after hpasses
      | ok read =>
        obtain ⟨args, left⟩ := read
        have hlength := length_readArguments_lt hlist
        have hleft := passes_of_readArguments hlist
        simp only [hlist] at h
        exact ((ih _ (by omega) h rfl).after hleft).after hpasses
    · rw [readCalls_done hhead] at h
      cases h

theorem refusesExpressions : ∀ depth, RefusesExpressions depth
  | 0, _, _, _, h => by cases h
  | depth + 1, cs, rest, refusal, h => by
    by_cases hfirst : ∃ first left, Primary (Text.skipBlanks cs) first left
    · obtain ⟨first, left, hfirst⟩ := hfirst
      rw [readExpression_primary hfirst] at h
      have hpasses := (Passes.skipBlanks cs).trans hfirst.passes
      exact .inr ((refused_of_readCalls (refusesExpressions depth) h).after hpasses)
    · simp only [not_exists] at hfirst
      rw [readExpression_refused hfirst] at h
      cases h
      exact .inl rfl

theorem refused_of_program {refusal : Refusal} (h : program depth cs = .error (.refused refusal rest)) :
    RefusedAt 0 cs rest := by
  rw [program_eq] at h
  cases hread : readExpression depth cs with
  | error failure =>
    simp only [hread, Except.error.injEq] at h
    rcases refusesExpressions depth (h ▸ hread) with rfl | hrefused
    · exact refused_skipBlanks cs
    · exact hrefused.mono (by decide)
  | ok read =>
    obtain ⟨e, left⟩ := read
    simp only [hread] at h
    split at h
    · cases h
    · cases h
      exact (refused_skipBlanks left).after (passes_of_readExpression hread)

/-- A text that leaves nothing open is refused at one of its characters, unless it is blank. -/
theorem ne_nil_of_refused {refusal : Refusal} (h : program depth cs = .error (.refused refusal rest))
    (hblank : isBlankText cs = false) (hopen : leavesOpen false 0 cs = false) : rest ≠ [] := by
  rintro rfl
  rw [program_eq] at h
  cases hread : readExpression depth cs with
  | error failure =>
    simp only [hread, Except.error.injEq] at h
    rcases refusesExpressions depth (h ▸ hread) with hskip | ⟨-, opened, hopened, hpasses⟩
    · rw [skipBlanks_eq_nil_iff.1 hskip.symm] at hblank
      cases hblank
    · have hpositive : leavesOpen false (0 + opened) [] = true := by
        simp only [leavesOpen, Bool.false_or, decide_eq_true_iff]
        omega
      rw [hpasses.balance, hpositive] at hopen
      cases hopen
  | ok read =>
    obtain ⟨e, left⟩ := read
    simp only [hread] at h
    split at h
    · cases h
    · next hrest =>
      simp only [Except.error.injEq, Failure.refused.injEq] at h
      exact hrest h.2

end CallScript.Grammar
