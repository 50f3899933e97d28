import CallScript.Proofs.Expr.WellFormed
import CallScript.Proofs.Grammar.Acceptance

/-!
# Printing and parsing

Every tree that parsing answers with is well-formed, and the text of every well-formed tree derives
that tree again, up to infinite literals. The text of an expression is derived in any surroundings in
which no word goes on behind it: in an expression's own text a parenthesis, a comma or nothing follows
each part of it.
-/

namespace CallScript.Grammar

open Decimal Text CallScript.Expr

variable {depth : Nat} {cs rest : List Char} {e : Expr} {es : List Expr}

theorem isWordChar_of_joinsDigits {c : Char} (h : joinsDigits c = true) : isWordChar c = true := by
  have hrange := toNat_of_joinsDigits h
  have hblank := isBlank_of_joinsDigits h
  simp only [isWordChar, hblank, Bool.not_false, Bool.true_and, Bool.and_eq_true, bne_iff_ne]
  refine ⟨⟨⟨?_, ?_⟩, ?_⟩, ?_⟩ <;> rintro rfl <;> revert hrange <;> decide

theorem boundary_of_no_word (h : rest.head?.any isWordChar = false) :
    rest.head?.any joinsDigits = false := by
  cases rest with
  | nil => rfl
  | cons c more =>
    cases hc : joinsDigits c with
    | false => simp [hc]
    | true =>
      have hword : isWordChar c = false := by simpa using h
      rw [isWordChar_of_joinsDigits hc] at hword
      cases hword

/-- Behind a run of digits a letter or an underscore is what keeps it from being a number. -/
theorem joinsDigits_of_not_isDigit {c : Char} (h : c.isDigit = false) :
    joinsDigits c = (c.isAlpha || c == '_') := by
  simp [joinsDigits, Char.isAlphanum, h]

/-- A run of word characters is a name exactly if it is not read as a number. -/
theorem isName_iff {name : List Char} (hne : name ≠ []) (hchar : ∀ c ∈ name, isWordChar c = true)
    (hstop : rest.head?.any isWordChar = false) :
    IsName name ↔ ∀ digits behind, ¬ Numeral (name ++ rest) digits behind := by
  have hboundary := boundary_of_no_word hstop
  have hhead : (name ++ rest).head?.any Char.isDigit = name.head?.any Char.isDigit := by
    obtain ⟨c, more, rfl⟩ := List.exists_cons_of_ne_nil hne
    rfl
  have hexists := @Numeral.exists_iff (name ++ rest)
  rw [hhead] at hexists
  cases hleft : name.dropWhile Char.isDigit with
  | nil =>
    have hdrop : (name ++ rest).dropWhile Char.isDigit = rest := by
      have hdigit := any_isDigit_of_boundary hboundary
      rw [List.dropWhile_append, hleft]
      exact @dropWhile_append_of_stop _ [] rest (by simp) hdigit
    rw [hdrop] at hexists
    constructor
    · intro hname digits behind hnum
      have hletter := hname.notNumber (hexists.1 ⟨_, _, hnum⟩).1
      simp [hleft] at hletter
    · intro hnone
      refine ⟨hne, hchar, fun hfirst => ?_⟩
      obtain ⟨digits, behind, hnum⟩ := hexists.2 ⟨hfirst, hboundary⟩
      exact absurd hnum (hnone _ _)
  | cons c more =>
    have hdrop : (name ++ rest).dropWhile Char.isDigit = c :: (more ++ rest) := by
      rw [List.dropWhile_append, hleft]
      rfl
    have hc : c.isDigit = false := by
      simpa [hleft] using any_head?_dropWhile Char.isDigit name
    have hjoins : (c :: (more ++ rest)).head?.any joinsDigits = (c.isAlpha || c == '_') := by
      simp [joinsDigits_of_not_isDigit hc]
    rw [hdrop, hjoins] at hexists
    constructor
    · intro hname digits behind hnum
      obtain ⟨hfirst, hend⟩ := hexists.1 ⟨_, _, hnum⟩
      have hletter := hname.notNumber hfirst
      rw [hleft, List.head?_cons, Option.any_some, hend] at hletter
      cases hletter
    · intro hnone
      refine ⟨hne, hchar, fun hfirst => ?_⟩
      rw [hleft, List.head?_cons, Option.any_some]
      cases hletter : c.isAlpha || c == '_' with
      | true => rfl
      | false =>
        obtain ⟨digits, behind, hnum⟩ := hexists.2 ⟨hfirst, hletter⟩
        exact absurd hnum (hnone _ _)

theorem Primary.wellFormed (h : Primary cs e rest) : WellFormed e := by
  cases h with
  | string closed => exact .string (by simpa using closed)
  | number numeral => exact .number (nearest_isNatural_or_infinite _)
  | word noNumber nonempty char longest =>
    refine .word ?_
    rw [String.toList_ofList]
    exact (isName_iff nonempty char longest).2 noNumber

mutual

theorem Expression.wellFormed {cs rest : List Char} {e : Expr} : Expression cs e rest → WellFormed e
  | .primary _ first => first.wellFormed
  | .call before _ list => .apply before.wellFormed list.wellFormed

theorem Arguments.wellFormed {cs rest : List Char} {es : List Expr} : Arguments cs es rest →
    ∀ e ∈ es, WellFormed e
  | .empty _ => by simp
  | .nonempty first more => List.forall_mem_cons.2 ⟨first.wellFormed, more.wellFormed⟩

theorem MoreArguments.wellFormed {cs rest : List Char} {es : List Expr} :
    MoreArguments cs es rest → ∀ e ∈ es, WellFormed e
  | .close _ => by simp
  | .closeAfterComma .. => by simp
  | .next _ first more => List.forall_mem_cons.2 ⟨first.wellFormed, more.wellFormed⟩

end

/-- Blanks may stand before an expression. -/
theorem Expression.afterBlanks {blanks : List Char} (hblanks : isBlankText blanks = true)
    {cs rest : List Char} {e : Expr} :
    Expression cs e rest → Expression (blanks ++ cs) e rest
  | @Expression.primary before _ _ _ blank first => by
    rw [← List.append_assoc]
    exact .primary (by rw [isBlankText_append, hblanks, blank]; rfl) first
  | .call before blank list => .call (before.afterBlanks hblanks) blank list

theorem Expression.ofPrimary (h : Primary cs e rest) : Expression cs e rest :=
  .primary isBlankText_nil h

def DerivesFromText (e : Expr) : Prop :=
  ∀ rest : List Char, rest.head?.any isWordChar = false → Expression (e.chars ++ rest) e.readBack rest

theorem primary_word {name : List Char} (h : IsName name) (hstop : rest.head?.any isWordChar = false) :
    Primary (name ++ rest) (.word (String.ofList name)) rest :=
  .word ((isName_iff h.nonempty h.char hstop).1 h) h.nonempty h.char hstop

theorem Expression.ofName {name : String} (h : IsName name.toList)
    (hstop : rest.head?.any isWordChar = false) :
    Expression (name.toList ++ rest) (.word name) rest := by
  have hprimary := primary_word h hstop
  rw [String.ofList_toList] at hprimary
  exact .ofPrimary hprimary

theorem primary_toDigits (n : Nat) (hstop : rest.head?.any isWordChar = false) :
    Primary (Nat.toDigits 10 n ++ rest) (.literal (.number (nearest n) 0)) rest := by
  have hnum : Numeral (Nat.toDigits 10 n ++ rest) (Nat.toDigits 10 n) rest :=
    ⟨rfl, Nat.toDigits_ne_nil, fun c hc => Nat.isDigit_of_mem_toDigits (by decide) (by decide) hc,
      boundary_of_no_word hstop⟩
  have hprimary := Primary.number hnum
  rwa [numberLiteral, digitsValue_toDigits] at hprimary

theorem moreArguments_of_text {es : List Expr} (h : ∀ e ∈ es, DerivesFromText e)
    (rest : List Char) : MoreArguments (moreArgChars es ++ ')' :: rest) (readBackAll es) rest := by
  induction es with
  | nil => exact @MoreArguments.close [] rest isBlankText_nil
  | cons e es ih =>
    obtain ⟨he, hes⟩ := List.forall_mem_cons.1 h
    have hstop : (moreArgChars es ++ ')' :: rest).head?.any isWordChar = false := by
      cases es <;> rfl
    have hexpr := (he _ hstop).afterBlanks (show isBlankText [' '] = true from rfl)
    have hmore := @MoreArguments.next [] _ _ _ _ _ isBlankText_nil hexpr (ih hes)
    simpa only [moreArgChars, readBackAll, List.nil_append, List.cons_append, List.append_assoc]
      using hmore

theorem arguments_of_text {es : List Expr} (h : ∀ e ∈ es, DerivesFromText e) (rest : List Char) :
    Arguments (argChars es ++ ')' :: rest) (readBackAll es) rest := by
  cases es with
  | nil => exact @Arguments.empty [] rest isBlankText_nil
  | cons e es =>
    obtain ⟨he, hes⟩ := List.forall_mem_cons.1 h
    have hstop : (moreArgChars es ++ ')' :: rest).head?.any isWordChar = false := by
      cases es <;> rfl
    simp only [argChars, readBackAll, List.append_assoc]
    exact .nonempty (he _ hstop) (moreArguments_of_text hes rest)

theorem derivesFromText (h : WellFormed e) : DerivesFromText e := by
  induction h with
  | @string text closed =>
    intro rest _
    have hprimary := @Primary.string text.toList rest closed
    rw [stringLiteral, String.ofList_toList] at hprimary
    have hchars : (literal (.string text)).chars ++ rest =
        '"' :: (text.toList ++ '"' :: rest) := by
      simp [chars, Value.literalText]
    rw [hchars]
    exact .ofPrimary hprimary
  | @number x plain =>
    intro rest hstop
    rcases plain with ⟨n, hn⟩ | hinfinite
    · have hprimary := primary_toDigits n hstop
      rw [nearest_of_isNatural hn] at hprimary
      have hfinite : Value.isInfinity (.number x 0) = false := by
        cases hx : Dyadic.ofFloat x with
        | infinite negative => rw [hx] at hn; cases hn
        | _ => simp [Value.isInfinity, hx]
      simp only [chars, readBack, hfinite, Value.literalText_of_isNatural hn, String.toList_ofList]
      exact .ofPrimary hprimary
    · -- No number is written like infinity, so what is written is read as a word.
      have hinf : Value.isInfinity (.number x 0) = true := by simp [Value.isInfinity, hinfinite]
      have hword : IsName "inf".toList := ⟨by decide, List.all_eq_true.1 (by decide), by decide⟩
      simp only [chars, readBack, if_pos hinf, Value.literalText_of_isInfinity hinf]
      exact .ofPrimary (primary_word hword hstop)
  | @word name plain =>
    intro rest hstop
    have hprimary := primary_word plain hstop
    rw [String.ofList_toList] at hprimary
    exact .ofPrimary hprimary
  | @apply operator args first others ihfirst ihothers =>
    intro rest _
    have hlist := arguments_of_text ihothers rest
    have hcall := @Expression.call _ [] _ _ _ _ (ihfirst ('(' :: (argChars args ++ ')' :: rest)) rfl)
      isBlankText_nil hlist
    simpa only [chars, readBack, List.append_assoc, List.cons_append, List.nil_append] using hcall

/-- The text of a well-formed expression is a program, namely for what it reads back as. -/
theorem program_text (h : WellFormed e) : Program e.text.toList e.readBack := by
  have hexpr := derivesFromText h [] rfl
  rw [List.append_nil] at hexpr
  rw [text, String.toList_ofList]
  exact ⟨[], hexpr, isBlankText_nil⟩

theorem wellFormed_of_parse {text : String} (h : parse depth text = .ok e) : WellFormed e := by
  obtain ⟨⟨rest, hexpr, -⟩, -⟩ := parse_eq_ok_iff.1 h
  exact hexpr.wellFormed

theorem parse_text (h : WellFormed e) (depth : Nat) :
    parse depth e.text = if e.callDepth < depth then .ok e.readBack else .error .tooDeep := by
  rw [(program_text h).parse, callDepth_readBack]

theorem parse_text_eq_ok_self_iff (h : WellFormed e) (depth : Nat) :
    parse depth e.text = .ok e ↔ e.callDepth < depth ∧ ¬ e.HoldsInfinity := by
  rw [parse_text h, ← readBack_eq_self_iff]
  by_cases hdepth : e.callDepth < depth <;> simp [hdepth]

/-- Parsing a printed program, and printing a parsed one. All that parsing answers with is
well-formed. The text of a well-formed expression is parsed to the expression itself, but that the
word `inf` comes in the place of every infinite literal, unless argument lists are nested too deeply.
So printing what was parsed gives a text that stays as it is when it is parsed and printed again. -/
theorem print_and_parse_inverse (depth : Nat) :
    (∀ program e, parse depth program = .ok e → WellFormed e) ∧
    (∀ e, WellFormed e →
      parse depth e.text = (if e.callDepth < depth then .ok e.readBack else .error .tooDeep) ∧
      (parse depth e.text = .ok e ↔ e.callDepth < depth ∧ ¬ e.HoldsInfinity)) ∧
    ∀ program e, parse depth program = .ok e →
      ∃ again, parse depth e.text = .ok again ∧ again.text = e.text := by
  refine ⟨fun _ _ h => wellFormed_of_parse h, fun e h => ?_, fun program e h => ?_⟩
  · exact ⟨parse_text h depth, parse_text_eq_ok_self_iff h depth⟩
  · have hdepth := (parse_eq_ok_iff.1 h).2
    refine ⟨e.readBack, ?_, text_readBack e⟩
    rw [parse_text (wellFormed_of_parse h), if_pos hdepth]

/-- A call whose word begins with digits and whose first argument is infinity. -/
def infiniteCall : Expr :=
  .apply (.word "12ab") [.literal (.number (nearest (2 ^ 1024)) 0), .literal (.string "x y")]

/-- The call comes back with the word `inf`, and then stays as it is. -/
theorem infiniteCall_print_and_parse :
    WellFormed infiniteCall ∧ parse 2 infiniteCall.text = .ok infiniteCall.readBack ∧
      parse 2 infiniteCall.text ≠ .ok infiniteCall ∧ WellFormed infiniteCall.readBack ∧
      ∃ again, parse 2 infiniteCall.readBack.text = .ok again ∧
        again.text = infiniteCall.readBack.text := by
  have hinfinite : Dyadic.ofFloat (nearest (2 ^ 1024)) = .infinite false :=
    ofFloat_nearest_of_ge (Nat.le_refl _)
  have hwell : WellFormed infiniteCall := by
    refine .apply (.word ⟨by decide, List.all_eq_true.1 (by decide), by decide⟩) ?_
    simp only [List.forall_mem_cons, List.not_mem_nil, false_implies, implies_true, and_true]
    exact ⟨.number (.inr hinfinite), .string (by decide)⟩
  have hholds : infiniteCall.HoldsInfinity :=
    .arg (List.mem_cons_self ..) (.literal (beq_iff_eq.2 hinfinite))
  obtain ⟨hparsed, hprinted, hagain⟩ := print_and_parse_inverse 2
  obtain ⟨hparse, hself⟩ := hprinted _ hwell
  have hread : parse 2 infiniteCall.text = .ok infiniteCall.readBack := by
    rw [hparse, if_pos (by decide)]
  exact ⟨hwell, hread, fun h => (hself.1 h).2 hholds, hparsed _ _ hread, hagain _ _ hread⟩

end CallScript.Grammar
