import CallScript.Proofs.Expr.Reads
import CallScript.Proofs.Grammar.RoundTrip
import CallScript.Proofs.Shell.Continuation
import Mathlib.Data.List.SplitBy

/-!
# Texts closed up at the line ends

A text is closed up by leaving out the blanks before every line feed, empty lines included; the blanks
that begin a line stay. Between tokens this makes no difference to reading, since blanks stay blanks and
tokens hold none. Only strings may hold blanks: what is read from the closed-up text is the same
expression with its strings closed up.
-/

namespace CallScript

namespace Text

variable {c : Char} {cs run rest : List Char}

/-- Leaves out every blank that a line feed follows with nothing but blanks in between. -/
def closeUp : List Char → List Char
  | [] => []
  | c :: cs =>
    if isBlank c && (cs.takeWhile isBlank).contains '\n' then closeUp cs else c :: closeUp cs

theorem closeUp_cons (hc : isBlank c = false) (cs : List Char) :
    closeUp (c :: cs) = c :: closeUp cs := by
  rw [closeUp, hc, Bool.false_and, if_neg Bool.false_ne_true]

theorem closeUp_sublist : ∀ cs : List Char, (closeUp cs).Sublist cs
  | [] => .slnil
  | c :: cs => by
    rw [closeUp]
    split
    · exact (closeUp_sublist cs).cons c
    · exact (closeUp_sublist cs).cons_cons c

theorem isBlankText_closeUp (h : isBlankText cs = true) : isBlankText (closeUp cs) = true :=
  List.all_eq_true.2 fun _ hc => isBlank_of_mem h ((closeUp_sublist cs).subset hc)

theorem takeWhile_append_of_any_false (hrest : rest.head?.any isBlank = false) (cs : List Char) :
    (cs ++ rest).takeWhile isBlank = cs.takeWhile isBlank := by
  induction cs with
  | nil =>
    cases rest with
    | nil => rfl
    | cons c rest =>
      have hc : isBlank c = false := by simpa using hrest
      simp [hc]
  | cons c cs ih => simp only [List.cons_append, List.takeWhile_cons, ih]

/-- What stands before the end of a run of blanks is closed up on its own. -/
theorem closeUp_append (hrest : rest.head?.any isBlank = false) (cs : List Char) :
    closeUp (cs ++ rest) = closeUp cs ++ closeUp rest := by
  induction cs with
  | nil => rfl
  | cons c cs ih =>
    rw [List.cons_append, closeUp, closeUp, takeWhile_append_of_any_false hrest, ih]
    split <;> rfl

theorem closeUp_append_cons (hc : isBlank c = false) (cs rest : List Char) :
    closeUp (cs ++ c :: rest) = closeUp cs ++ c :: closeUp rest := by
  rw [closeUp_append (by simpa using hc), closeUp_cons hc]

theorem closeUp_plain (hrun : ∀ c ∈ run, isBlank c = false) (rest : List Char) :
    closeUp (run ++ rest) = run ++ closeUp rest := by
  induction run with
  | nil => rfl
  | cons c run ih =>
    obtain ⟨hc, hrun⟩ := List.forall_mem_cons.1 hrun
    rw [List.cons_append, closeUp_cons hc, ih hrun, List.cons_append]

/-- A text of one line stays as it is. -/
theorem closeUp_line (h : '\n' ∉ cs) : closeUp cs = cs := by
  induction cs with
  | nil => rfl
  | cons c cs ih =>
    have hcs : '\n' ∉ cs := fun hmem => h (List.mem_cons_of_mem c hmem)
    have hrun : (cs.takeWhile isBlank).contains '\n' = false := by
      rw [Bool.eq_false_iff, Ne, List.contains_iff_mem]
      exact fun hmem => hcs ((List.takeWhile_sublist _).subset hmem)
    rw [closeUp, hrun, Bool.and_false, if_neg Bool.false_ne_true, ih hcs]

/-- The longest runs of blanks and of other characters in a text, in order. -/
def runs (cs : List Char) : List (List Char) :=
  cs.splitBy fun c d => isBlank c == isBlank d

theorem any_head?_closeUp {p : Char → Bool} (hp : ∀ c, p c = true → isBlank c = false)
    (h : cs.head?.any p = false) : (closeUp cs).head?.any p = false := by
  induction cs with
  | nil => rfl
  | cons c cs ih =>
    have hc : p c = false := by simpa using h
    rw [closeUp]
    split
    · next hdropped =>
      rw [Bool.and_eq_true] at hdropped
      refine ih ?_
      cases cs with
      | nil => cases hdropped.2
      | cons d cs =>
        cases hd : isBlank d with
        | true => cases hpd : p d <;> simp_all
        | false => simp [hd] at hdropped
    · simpa using hc

/-- A blank stands right before a line feed. -/
def BlankBeforeNewline (cs : List Char) : Prop :=
  ∃ c, isBlank c = true ∧ [c, '\n'] <:+: cs

theorem blankBeforeNewline_cons : BlankBeforeNewline (c :: cs) ↔
    (isBlank c = true ∧ cs.head? = some '\n') ∨ BlankBeforeNewline cs := by
  constructor
  · rintro ⟨d, hd, h⟩
    rcases List.infix_cons_iff.1 h with hfirst | hinside
    · obtain ⟨rest, hrest⟩ := hfirst
      obtain ⟨rfl, rfl⟩ := List.cons.inj hrest
      exact .inl ⟨hd, rfl⟩
    · exact .inr ⟨d, hd, hinside⟩
  · rintro (⟨hc, hhead⟩ | ⟨d, hd, h⟩)
    · obtain ⟨rest, rfl⟩ := List.head?_eq_some_iff.1 hhead
      exact ⟨c, hc, [], rest, rfl⟩
    · exact ⟨d, hd, List.infix_cons_iff.2 (.inr h)⟩

theorem blankBeforeNewline_of_run (hc : isBlank c = true) (h : '\n' ∈ cs.takeWhile isBlank) :
    BlankBeforeNewline (c :: cs) := by
  induction cs generalizing c with
  | nil => cases h
  | cons d cs ih =>
    have hd : isBlank d = true := by
      cases hd : isBlank d with
      | true => rfl
      | false => simp [hd] at h
    rw [List.takeWhile_cons_of_pos hd, List.mem_cons] at h
    rcases h with rfl | h
    · exact blankBeforeNewline_cons.2 (.inl ⟨hc, rfl⟩)
    · exact blankBeforeNewline_cons.2 (.inr (ih hd h))

theorem closeUp_eq_self_iff : closeUp cs = cs ↔ ¬ BlankBeforeNewline cs := by
  induction cs with
  | nil => exact iff_of_true rfl fun ⟨c, _, h⟩ => by simp at h
  | cons c cs ih =>
    rw [closeUp]
    split
    · next hdropped =>
      rw [Bool.and_eq_true, List.contains_iff_mem] at hdropped
      refine iff_of_false (fun h => ?_) (not_not_intro (blankBeforeNewline_of_run hdropped.1 hdropped.2))
      have hlength := (closeUp_sublist cs).length_le
      rw [h, List.length_cons] at hlength
      omega
    · next hkept =>
      have hfirst : ¬ (isBlank c = true ∧ cs.head? = some '\n') := by
        rintro ⟨hc, hhead⟩
        obtain ⟨rest, rfl⟩ := List.head?_eq_some_iff.1 hhead
        simp [hc, show isBlank '\n' = true by decide] at hkept
      rw [List.cons.injEq, blankBeforeNewline_cons, ih]
      simp [hfirst]

theorem trimEnd_append (h : isBlankText rest = false) (cs : List Char) :
    trimEnd (cs ++ rest) = cs ++ trimEnd rest := by
  have hrest : (rest.reverse.dropWhile isBlank).isEmpty = false := by
    rw [List.isEmpty_eq_false_iff, Ne, List.dropWhile_eq_nil_iff, ← List.all_eq_true,
      List.all_reverse, ← isBlankText, h]
    exact Bool.false_ne_true
  rw [trimEnd, List.reverse_append, List.dropWhile_append, hrest, if_neg Bool.false_ne_true,
    List.reverse_append, List.reverse_reverse, trimEnd]

theorem trimEnd_eq_self (h : cs.getLast?.any isBlank = false) : trimEnd cs = cs := by
  rcases List.eq_nil_or_concat cs with rfl | ⟨front, c, rfl⟩
  · rfl
  · have hc : isBlank c = false := by simpa using h
    rw [trimEnd, List.concat_eq_append, List.reverse_append, List.reverse_singleton,
      List.singleton_append, List.dropWhile_cons_of_neg (by simp [hc]), List.reverse_cons,
      List.reverse_reverse]

end Text

open Text

namespace Expr

mutual

def closedUp : Expr → Expr
  | literal (.string s) => literal (.string (String.ofList (closeUp s.toList)))
  | apply operator args => apply operator.closedUp (closedUpAll args)
  | e => e

def closedUpAll : List Expr → List Expr
  | [] => []
  | e :: es => e.closedUp :: closedUpAll es

end

theorem closedUp_literal {v : Value} (h : ∀ s, v ≠ .string s) : (literal v).closedUp = literal v := by
  cases v with
  | string s => exact absurd rfl (h s)
  | _ => rfl

mutual

theorem callDepth_closedUp : ∀ e : Expr, e.closedUp.callDepth = e.callDepth
  | literal v => by cases v <;> rfl
  | word _ => rfl
  | foreign .. => rfl
  | apply operator args => by
    rw [closedUp, callDepth, callDepth, callDepth_closedUp operator, argsDepth_closedUpAll args]

theorem argsDepth_closedUpAll : ∀ es : List Expr, argsDepth (closedUpAll es) = argsDepth es
  | [] => rfl
  | e :: es => by
    rw [closedUpAll, argsDepth, argsDepth, callDepth_closedUp e, argsDepth_closedUpAll es]

end

theorem closedUp_string_eq_self_iff {s : String} :
    (literal (.string s)).closedUp = literal (.string s) ↔ ¬ BlankBeforeNewline s.toList := by
  rw [closedUp, ← closeUp_eq_self_iff]
  constructor
  · intro h
    have hs : String.ofList (closeUp s.toList) = s := by injection h with h; injection h
    rw [← String.toList_inj, String.toList_ofList] at hs
    exact hs
  · intro h
    rw [h, String.ofList_toList]

mutual

/-- An expression stays as it is exactly if all its strings do. -/
theorem closedUp_eq_self_iff : ∀ e : Expr,
    e.closedUp = e ↔ ∀ s, e.Holds (.string s) → ¬ BlankBeforeNewline s.toList
  | literal v => by
    by_cases hstring : ∃ s, v = .string s
    · obtain ⟨s, rfl⟩ := hstring
      rw [closedUp_string_eq_self_iff]
      refine ⟨fun h t holds => ?_, fun h => h s .literal⟩
      cases holds
      exact h
    · refine iff_of_true (closedUp_literal fun s hv => hstring ⟨s, hv⟩) fun s holds => ?_
      cases holds
      exact absurd ⟨s, rfl⟩ hstring
  | word _ => iff_of_true rfl fun _ holds => by cases holds
  | foreign .. => iff_of_true rfl fun _ holds => by cases holds
  | apply operator args => by
    rw [closedUp, apply.injEq, closedUp_eq_self_iff operator, closedUpAll_eq_self_iff args]
    constructor
    · rintro ⟨hoperator, hargs⟩ s holds
      cases holds with
      | operator inside => exact hoperator s inside
      | arg mem inside => exact hargs _ mem s inside
    · exact fun h => ⟨fun s inside => h s (.operator inside), fun e mem s inside => h s (.arg mem inside)⟩

theorem closedUpAll_eq_self_iff : ∀ es : List Expr,
    closedUpAll es = es ↔ ∀ e ∈ es, ∀ s, e.Holds (.string s) → ¬ BlankBeforeNewline s.toList
  | [] => by simp [closedUpAll]
  | e :: es => by
    rw [closedUpAll, List.cons.injEq, closedUp_eq_self_iff e, closedUpAll_eq_self_iff es,
      List.forall_mem_cons]

end

end Expr

namespace Grammar

open Shell CallScript.Expr

variable {cs rest : List Char} {e : Expr} {es : List Expr}

theorem Primary.closedUp (h : Primary cs e rest) : Primary (closeUp cs) e.closedUp (closeUp rest) := by
  cases h with
  | @string content _ closed =>
    have hquote : isBlank '"' = false := by decide
    rw [closeUp_cons hquote, closeUp_append_cons hquote, stringLiteral, Expr.closedUp,
      String.toList_ofList]
    exact .string fun hmem => closed ((closeUp_sublist content).subset hmem)
  | number numeral =>
    have hplain : ∀ c ∈ _, isBlank c = false :=
      fun c hc => isBlank_of_joinsDigits (joinsDigits_of_isDigit (numeral.digit c hc))
    rw [numeral.eq, closeUp_plain hplain]
    exact .number ⟨rfl, numeral.nonempty, numeral.digit,
      any_head?_closeUp (fun _ => isBlank_of_joinsDigits) numeral.boundary⟩
  | word noNumber nonempty char longest =>
    have hplain : ∀ c ∈ _, isBlank c = false := fun c hc => isBlank_of_isWordChar (char c hc)
    rw [closeUp_plain hplain]
    exact primary_word ((isName_iff nonempty char longest).2 noNumber)
      (any_head?_closeUp (fun _ => isBlank_of_isWordChar) longest)

theorem Primary.any_isBlank (h : Primary cs e rest) : cs.head?.any isBlank = false := by
  obtain ⟨c, more, rfl, hc, -⟩ := h.head
  simpa using hc

mutual

/-- Reading comes to the same expression, up to its strings, where the text is closed up. -/
theorem Expression.closedUp {cs rest : List Char} {e : Expr} : Expression cs e rest →
    Expression (closeUp cs) e.closedUp (closeUp rest)
  | .primary blank first => by
    rw [closeUp_append first.any_isBlank]
    exact .primary (isBlankText_closeUp blank) first.closedUp
  | .call before blank list => by
    have hbefore := before.closedUp
    rw [closeUp_append_cons (by decide)] at hbefore
    exact .call hbefore (isBlankText_closeUp blank) list.closedUp

theorem Arguments.closedUp {cs rest : List Char} {es : List Expr} : Arguments cs es rest →
    Arguments (closeUp cs) (closedUpAll es) (closeUp rest)
  | .empty blank => by
    rw [closeUp_append_cons (by decide)]
    exact .empty (isBlankText_closeUp blank)
  | .nonempty first more => .nonempty first.closedUp more.closedUp

theorem MoreArguments.closedUp {cs rest : List Char} {es : List Expr} : MoreArguments cs es rest →
    MoreArguments (closeUp cs) (closedUpAll es) (closeUp rest)
  | .close blank => by
    rw [closeUp_append_cons (by decide)]
    exact .close (isBlankText_closeUp blank)
  | .closeAfterComma blank blank' => by
    rw [closeUp_append_cons (by decide), closeUp_append_cons (by decide)]
    exact .closeAfterComma (isBlankText_closeUp blank) (isBlankText_closeUp blank')
  | .next blank first more => by
    rw [closeUp_append_cons (by decide)]
    exact .next (isBlankText_closeUp blank) first.closedUp more.closedUp

end

theorem Program.closedUp (h : Program cs e) : Program (closeUp cs) e.closedUp := by
  obtain ⟨rest, hexpr, hrest⟩ := h
  exact ⟨closeUp rest, hexpr.closedUp, isBlankText_closeUp hrest⟩

end Grammar

end CallScript
