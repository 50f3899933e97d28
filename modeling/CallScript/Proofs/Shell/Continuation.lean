import CallScript.Proofs.Grammar.Placement
import CallScript.Proofs.Shell.Trimmed
import Mathlib.Data.List.TakeWhile

/-!
# Entries that more text completes

An entry is continued exactly where that is of use. A text that can be read leaves nothing open, so it
is never held back. And wherever the text of an expression is cut off, what is before the cut is blank, or
an expression itself, or leaves a string or a parenthesis open; so a text that cannot be read, but that
more text completes, is continued.
-/

namespace CallScript

namespace Grammar

open Text Shell CallScript.Expr

variable {depth : Nat} {cs rest front behind : List Char} {e : Expr} {es : List Expr}

/-- The text leaves something open if at least that many more parentheses were opened than closed
before it. -/
def StaysOpen (least : Int) (cs : List Char) : Prop :=
  ∀ balance, least ≤ balance → leavesOpen false balance cs = true

theorem StaysOpen.after {i least : Int} {mid : List Char} (h : StaysOpen (least + i) mid)
    (hpasses : Passes i cs mid) : StaysOpen least cs := by
  intro balance hbalance
  rw [hpasses.balance]
  exact h _ (by omega)

theorem StaysOpen.mono {i j : Int} (h : StaysOpen i cs) (hij : i ≤ j) : StaysOpen j cs :=
  fun balance hbalance => h balance (by omega)

theorem passes_of_blank (h : isBlankText cs = true) : Passes 0 cs [] := by
  have hpasses := Passes.blank h []
  rwa [List.append_nil] at hpasses

theorem staysOpen_blank (h : isBlankText cs = true) : StaysOpen 1 cs := by
  intro balance hbalance
  rw [(passes_of_blank h).balance, leavesOpen, Bool.false_or, decide_eq_true_iff]
  omega

theorem leavesOpen_unclosed {content : List Char} (h : '"' ∉ content) (balance : Int) :
    leavesOpen true balance content = true := by
  induction content with
  | nil => rfl
  | cons c content ih =>
    obtain ⟨hc, hcontent⟩ := not_or.1 (mt List.mem_cons.2 h)
    rw [leavesOpen]
    · exact ih hcontent
    · exact fun heq => hc heq.symm

/-- A string without its closing quote is open, however many parentheses are. -/
theorem staysOpen_string {content : List Char} (h : '"' ∉ content) (least : Int) :
    StaysOpen least ('"' :: content) := by
  intro balance _
  rw [leavesOpen, Bool.not_false, leavesOpen_unclosed h]

theorem primary_digits (hne : cs ≠ []) (hdigit : ∀ c ∈ cs, c.isDigit = true) :
    Primary cs (numberLiteral cs) [] :=
  .number ⟨by rw [List.append_nil], hne, hdigit, rfl⟩

theorem primary_of_name_append (hne : front ≠ []) (h : IsName (front ++ behind)) :
    ∃ e, Primary front e [] := by
  by_cases hdigits : ∀ c ∈ front, c.isDigit = true
  · exact ⟨_, primary_digits hne hdigits⟩
  · have hleft : front.dropWhile Char.isDigit ≠ [] := mt List.dropWhile_eq_nil_iff.1 hdigits
    obtain ⟨c, more, hcons⟩ := List.exists_cons_of_ne_nil hleft
    have hdrop : (front ++ behind).dropWhile Char.isDigit = c :: (more ++ behind) := by
      rw [List.dropWhile_append, hcons]
      rfl
    have hname : IsName front := by
      refine ⟨hne, fun c hc => h.char c (List.mem_append_left _ hc), fun hfirst => ?_⟩
      have hfirst : (front ++ behind).head?.any Char.isDigit = true := by
        obtain ⟨d, first, rfl⟩ := List.exists_cons_of_ne_nil hne
        exact hfirst
      have hletter := h.notNumber hfirst
      rw [hdrop] at hletter
      rwa [hcons]
    have hword := @primary_word [] front hname rfl
    rw [List.append_nil] at hword
    exact ⟨_, hword⟩

/-- The first part of a primary: nothing, an open string, a number or a word. -/
theorem Primary.cutWithin {missing : List Char} (h : Primary (front ++ (missing ++ rest)) e rest)
    (hmissing : missing ≠ []) : front = [] ∨ StaysOpen 0 front ∨ ∃ e', Primary front e' [] := by
  by_cases hne : front = []
  · exact .inl hne
  generalize htext : front ++ (missing ++ rest) = text at h
  rw [← List.append_assoc] at htext
  cases h with
  | @string content _ closed =>
    have htoken : front ++ missing = '"' :: (content ++ ['"']) := by
      have hwhole : (front ++ missing) ++ rest = ('"' :: (content ++ ['"'])) ++ rest := by
        rw [htext]
        simp
      exact List.append_cancel_right hwhole
    obtain ⟨c, part, rfl⟩ := List.exists_cons_of_ne_nil hne
    rw [List.cons_append, List.cons.injEq] at htoken
    obtain ⟨rfl, hpart⟩ := htoken
    have hstart : part <+: content := List.prefix_concat_iff.1 ⟨missing, hpart⟩ |>.resolve_left ?_
    · exact .inr (.inl (staysOpen_string (fun hmem => closed (hstart.subset hmem)) 0))
    · rintro rfl
      exact hmissing (by simpa using hpart)
  | number numeral =>
    rw [numeral.eq] at htext
    have hdigit : ∀ c ∈ front, c.isDigit = true := fun c hc =>
      numeral.digit c (List.append_cancel_right htext ▸ List.mem_append_left _ hc)
    exact .inr (.inr ⟨_, primary_digits hne hdigit⟩)
  | word noNumber nonempty char longest =>
    have hname := (isName_iff nonempty char longest).2 noNumber
    rw [← List.append_cancel_right htext] at hname
    exact .inr (.inr (primary_of_name_append hne hname))

/-- Where the text of a primary is cut off: within the primary, or behind it. -/
theorem Primary.cut (h : Primary (front ++ behind) e rest) :
    front = [] ∨ StaysOpen 0 front ∨ (∃ e', Primary front e' []) ∨
      ∃ left, rest = left ++ behind ∧ Primary front e left := by
  obtain ⟨token, -, htext, htoken⟩ := h.stands
  have hbehind : ∀ {left}, front = token ++ left → rest = left ++ behind → Primary front e left := by
    rintro left rfl rfl
    exact htoken left stopsAlike_of_append
  rcases List.append_eq_append_iff.1 htext with ⟨missing, rfl, rfl⟩ | ⟨left, hfront, hrest⟩
  · by_cases hmissing : missing = []
    · subst hmissing
      exact .inr (.inr (.inr ⟨[], rfl, hbehind (by simp) rfl⟩))
    · rcases h.cutWithin hmissing with hnone | hopen | hwhole
      · exact .inl hnone
      · exact .inr (.inl hopen)
      · exact .inr (.inr (.inl hwhole))
  · exact .inr (.inr (.inr ⟨left, hrest, hbehind hfront hrest⟩))

/-- Where the text of an expression is cut off: in front of it, within a string or a parenthesis, behind
an expression that the text begins with, or behind the expression itself. -/
inductive Cut (front behind : List Char) (e : Expr) (rest : List Char) : Prop where
  | blank (before : isBlankText front = true)
  | opened (inside : StaysOpen 0 front)
  | whole {e' left} (first : Expression front e' left) (blank : isBlankText left = true)
  | passed {left} (kept : rest = left ++ behind) (whole : Expression front e left)

/-- Where the text of an argument list is cut off: within the list, or behind it. -/
inductive ListCut (derives : List Char → List Char → Prop) (front behind rest : List Char) : Prop where
  | opened (inside : StaysOpen 1 front)
  | passed {left} (kept : rest = left ++ behind) (whole : derives front left)

theorem blank_or_cons {blanks : List Char} {c : Char} (hblanks : isBlankText blanks = true)
    (h : blanks ++ c :: cs = front ++ behind) :
    isBlankText front = true ∨ ∃ more, front = blanks ++ c :: more ∧ cs = more ++ behind := by
  rcases List.append_eq_append_iff.1 h with ⟨left, rfl, hleft⟩ | ⟨left, rfl, -⟩
  · cases left with
    | nil => exact .inl (by rwa [List.append_nil])
    | cons d more =>
      rw [List.cons_append, List.cons.injEq] at hleft
      obtain ⟨rfl, rfl⟩ := hleft
      exact .inr ⟨more, rfl, rfl⟩
  · rw [isBlankText_append, Bool.and_eq_true] at hblanks
    exact .inl hblanks.1

/-- A list is cut off within its first argument, or where the list behind that is. -/
theorem Cut.list {derives derives' : List Char → List Char → Prop} {between : List Char}
    (h : Cut front behind e between)
    (hmore : ∀ left, between = left ++ behind → ListCut derives left behind rest)
    (hwhole : ∀ {left left'}, Expression front e left → derives left left' → derives' front left') :
    ListCut derives' front behind rest := by
  cases h with
  | blank before => exact .opened (staysOpen_blank before)
  | opened inside => exact .opened (inside.mono (by decide))
  | whole first blank => exact .opened ((staysOpen_blank blank).after first.passes)
  | passed kept whole =>
    cases hmore _ kept with
    | opened inside => exact .opened (inside.after whole.passes)
    | passed kept' rest => exact .passed kept' (hwhole whole rest)

mutual

theorem Expression.cut {cs rest front behind : List Char} {e : Expr} : Expression cs e rest →
    cs = front ++ behind → Cut front behind e rest
  | @Expression.primary blanks _ _ _ blank first, h => by
    rcases List.append_eq_append_iff.1 h with ⟨part, rfl, rfl⟩ | ⟨left, rfl, -⟩
    · rcases first.cut with rfl | hopen | ⟨e', hwhole⟩ | ⟨left, hkept, hwhole⟩
      · exact .blank (by rwa [List.append_nil])
      · exact .opened (hopen.after (Passes.blank blank part))
      · exact .whole (.primary blank hwhole) rfl
      · exact .passed hkept (.primary blank hwhole)
    · rw [isBlankText_append, Bool.and_eq_true] at blank
      exact .blank blank.1
  | .call before blank list, h => by
    cases before.cut h with
    | blank before => exact .blank before
    | opened inside => exact .opened inside
    | whole first blank => exact .whole first blank
    | passed kept operator =>
      rcases blank_or_cons blank kept with hblank | ⟨inner, rfl, hinner⟩
      · exact .whole operator hblank
      · have hpasses := operator.passes.trans ((Passes.blank blank _).trans (Passes.opening inner))
        cases list.cut hinner with
        | opened inside => exact .opened (inside.after hpasses)
        | passed kept args => exact .passed kept (.call operator blank args)

theorem Arguments.cut {cs rest front behind : List Char} {es : List Expr} : Arguments cs es rest →
    cs = front ++ behind → ListCut (Arguments · es ·) front behind rest
  | .empty blank, h => by
    rcases blank_or_cons blank h with hblank | ⟨left, rfl, hkept⟩
    · exact .opened (staysOpen_blank hblank)
    · exact .passed hkept (.empty blank)
  | .nonempty first more, h => (first.cut h).list (fun _ => more.cut) .nonempty

theorem MoreArguments.cut {cs rest front behind : List Char} {es : List Expr} :
    MoreArguments cs es rest → cs = front ++ behind →
    ListCut (MoreArguments · es ·) front behind rest
  | .close blank, h => by
    rcases blank_or_cons blank h with hblank | ⟨left, rfl, hkept⟩
    · exact .opened (staysOpen_blank hblank)
    · exact .passed hkept (.close blank)
  | .closeAfterComma blank blank', h => by
    rcases blank_or_cons blank h with hblank | ⟨more, rfl, hmore⟩
    · exact .opened (staysOpen_blank hblank)
    · have hpasses := (Passes.blank blank _).trans (Passes.comma more)
      rcases blank_or_cons blank' hmore with hblank | ⟨left, rfl, hkept⟩
      · exact .opened ((staysOpen_blank hblank).after hpasses)
      · exact .passed hkept (.closeAfterComma blank blank')
  | .next blank first more, h => by
    rcases blank_or_cons blank h with hblank | ⟨inner, rfl, hinner⟩
    · exact .opened (staysOpen_blank hblank)
    · have hpasses := (Passes.blank blank _).trans (Passes.comma inner)
      have hlist : ListCut (Arguments · _ ·) inner behind rest :=
        (first.cut hinner).list (fun _ => more.cut) .nonempty
      cases hlist with
      | opened inside => exact .opened (inside.after hpasses)
      | passed kept args => exact .passed kept (args.afterComma blank)

end

/-- What a program begins with is blank, or leaves something open, or is a program. -/
theorem Program.cut (h : Program (front ++ behind) e) :
    isBlankText front = true ∨ leavesOpen false 0 front = true ∨ ∃ e', Program front e' := by
  obtain ⟨rest, hexpr, hrest⟩ := h
  cases hexpr.cut rfl with
  | blank before => exact .inl before
  | opened inside => exact .inr (.inl (inside 0 (Int.le_refl 0)))
  | whole first blank => exact .inr (.inr ⟨_, _, first, blank⟩)
  | passed kept whole =>
    rw [kept, isBlankText_append, Bool.and_eq_true] at hrest
    exact .inr (.inr ⟨_, _, whole, hrest.1⟩)

theorem Expression.not_blank (h : Expression cs e rest) : isBlankText cs = false := by
  obtain ⟨c, more, hcs, -⟩ := h.head
  rw [← Bool.not_eq_true, ← skipBlanks_eq_nil_iff, hcs]
  exact List.cons_ne_nil c more

/-- A program opens as many parentheses as it closes, and closes its strings. -/
theorem Program.not_leavesOpen (h : Program cs e) : leavesOpen false 0 cs = false := by
  obtain ⟨rest, hexpr, hrest⟩ := h
  rw [(hexpr.passes.trans (passes_of_blank hrest)).balance]
  rfl

end Grammar

namespace Shell

open Text Grammar

variable {text : String}

theorem leavesOpen_append_blanks {blanks : List Char} (hblanks : isBlankText blanks = true)
    (inside : Bool) (balance : Int) (kept : List Char) :
    leavesOpen inside balance (kept ++ blanks) = leavesOpen inside balance kept := by
  fun_induction leavesOpen inside balance kept with
  | case1 inside balance =>
    cases inside with
    | false =>
      rw [List.nil_append, (passes_of_blank hblanks).balance, Int.add_zero, leavesOpen]
    | true =>
      have hclosed : '"' ∉ blanks := fun hmem => absurd (isBlank_of_mem hblanks hmem) (by decide)
      rw [List.nil_append, leavesOpen_unclosed hclosed, Bool.true_or]
  | case2 inside balance rest ih => exact ih
  | case3 balance c rest hquote ih => rwa [List.cons_append, leavesOpen]; exact hquote
  | case4 balance rest ih => exact ih
  | case5 balance rest ih => exact ih
  | case6 balance c rest hquote hopen hclose ih =>
    rwa [List.cons_append, leavesOpen]
    · exact hquote
    · exact hopen
    · exact hclose

theorem leavesOpen_trimEnd (cs : List Char) :
    leavesOpen false 0 (trimEnd cs) = leavesOpen false 0 cs := by
  obtain ⟨blanks, hblanks, hcs⟩ := exists_blanks_behind cs
  conv => rhs; rw [hcs, leavesOpen_append_blanks hblanks]

/-- The second text is the first one without the blanks at its end. -/
structure WithoutBlanksBehind (cs kept : List Char) : Prop where
  blanks : ∃ blanks, isBlankText blanks = true ∧ cs = kept ++ blanks
  last : kept.getLast?.any isBlank = false

theorem withoutBlanksBehind_trimEnd (cs : List Char) : WithoutBlanksBehind cs (trimEnd cs) := by
  refine ⟨exists_blanks_behind cs, ?_⟩
  rw [trimEnd, List.getLast?_reverse]
  exact any_head?_dropWhile isBlank cs.reverse

theorem toList_preprocess (text : String) : (preprocess text).1.toList = trimEnd text.toList :=
  String.toList_ofList

/-- Whether an entry is continued does not depend on the blanks at its end. -/
theorem preprocess_snd (text : String) : (preprocess text).2 = leavesOpen false 0 text.toList :=
  leavesOpen_trimEnd text.toList

/-- The shell continues an entry in accordance with parsing. A text that has a tree is not continued, and
without the blanks at its end it has the same tree. A text that is neither blank nor has a tree is
continued if more text can complete it. -/
theorem continuation_agrees_with_parsing (depth : Nat) (text : String) :
    (∀ e, parse depth text = .ok e →
      WithoutBlanksBehind text.toList (preprocess text).1.toList ∧ (preprocess text).2 = false ∧
        parse depth (preprocess text).1 = .ok e) ∧
    (isBlankText text.toList = false →
      (∃ refusal offset, parse depth text = .error (.refused refusal offset)) →
      ∀ more depth' e, parse depth' (text ++ more) = .ok e → (preprocess text).2 = true) := by
  constructor
  · intro e h
    obtain ⟨hprogram, -⟩ := parse_eq_ok_iff.1 h
    have hdone : (preprocess text).2 = false := by rw [preprocess_snd, hprogram.not_leavesOpen]
    obtain ⟨rest, hexpr, -⟩ := hprogram
    refine ⟨?_, hdone, by rw [parse_preprocess hexpr.not_blank hdone, h]⟩
    rw [toList_preprocess]
    exact withoutBlanksBehind_trimEnd text.toList
  · rintro hblank ⟨refusal, offset, hrefused⟩ more depth' e h
    obtain ⟨hprogram, -⟩ := parse_eq_ok_iff.1 h
    rw [String.toList_append] at hprogram
    rw [preprocess_snd]
    rcases hprogram.cut with hfront | hopen | ⟨e', hfront⟩
    · rw [hfront] at hblank
      cases hblank
    · exact hopen
    · -- The text would have a tree of its own, which parsing finds or is too deep for.
      rw [hfront.parse] at hrefused
      split at hrefused <;> cases hrefused

/-- A call of which a string holds a parenthesis, and the same call cut off within the string. -/
theorem continuation_agrees_with_parsing_string :
    let whole := "f(\")\") "
    let part := "f(\")"
    let call : Expr := .apply (.word "f") [stringLiteral [')']]
    (parse 5 whole = .ok call ∧ WithoutBlanksBehind whole.toList (preprocess whole).1.toList ∧
      (preprocess whole).2 = false ∧ parse 5 (preprocess whole).1 = .ok call) ∧
    isBlankText part.toList = false ∧
      (∃ refusal offset, parse 5 part = .error (.refused refusal offset)) ∧
      parse 5 (part ++ "\") ") = .ok call ∧ (preprocess part).2 = true := by
  intro whole part call
  have hwhole : parse 5 whole = .ok call := by
    have hf : Expr.IsName "f".toList := ⟨by decide, List.all_eq_true.1 (by decide), by decide⟩
    have operator := @Expression.ofName "(\")\") ".toList "f" hf rfl
    have first : Expression "\")\") ".toList (stringLiteral [')']) ") ".toList :=
      @Expression.primary [] _ _ _ rfl (@Primary.string [')'] _ (by decide))
    have more : MoreArguments ") ".toList [] [' '] := @MoreArguments.close [] _ rfl
    have hexpr := @Expression.call _ [] _ _ _ _ operator rfl (.nonempty first more)
    have htext : whole.toList = "f".toList ++ "(\")\") ".toList := by decide
    exact parse_eq_ok_iff.2 ⟨⟨[' '], htext ▸ hexpr, rfl⟩, by decide⟩
  have hpart : ∃ refusal offset, parse 5 part = .error (.refused refusal offset) := by
    cases hparse : parse 5 part with
    | ok e =>
      have hopen := (parse_eq_ok_iff.1 hparse).1.not_leavesOpen
      exact absurd hopen (by decide)
    | error failure =>
      cases failure with
      | refused refusal offset => exact ⟨refusal, offset, rfl⟩
      | tooDeep => exact absurd (parse_eq_tooDeep_iff_program.1 hparse) (program_ne_tooDeep (by decide))
  have hblank : isBlankText part.toList = false := by decide
  have hcontinued := (continuation_agrees_with_parsing 5 part).2 hblank hpart
  exact ⟨⟨hwhole, (continuation_agrees_with_parsing 5 whole).1 call hwhole⟩, hblank, hpart, hwhole,
    hcontinued "\") " 5 call hwhole⟩

end Shell

end CallScript
