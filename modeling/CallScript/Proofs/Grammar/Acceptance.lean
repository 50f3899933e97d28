import CallScript.Proofs.Grammar.Soundness
import Mathlib.Data.Nat.Digits.Defs

/-!
# What parsing accepts

Parsing answers with a tree exactly if the text derives it, and if argument lists are not nested too
deeply in the tree. A text that derives no tree is refused, unless the limit on nesting is reached
first, for which the text has to be longer than the limit is high. Digits are read in base ten, and
zeros in front of them do not count.
-/

namespace CallScript.Grammar

open Text CallScript.Expr

variable {depth : Nat} {cs rest : List Char} {e : Expr} {es : List Expr}

/-- Reading that has to go too deep has a long text before it. -/
def ReachesLimit (depth : Nat) : Prop :=
  ∀ {cs : List Char}, readExpression depth cs = .error .tooDeep → depth ≤ cs.length

theorem readMore_tooDeep (h : readMore depth e cs = .error .tooDeep) :
    ∃ inner, skipBlanks cs = ',' :: inner ∧ readArguments depth inner = .error .tooDeep := by
  unfold readMore at h
  split at h
  · cases h
  · next inner hcomma =>
    cases hmore : readArguments depth inner with
    | error failure =>
      simp only [hmore, Except.error.injEq] at h
      exact ⟨inner, hcomma, by rw [hmore, h]⟩
    | ok list => simp [hmore] at h
  · cases h

theorem le_length_of_readArguments (hread : ReachesLimit depth) {cs : List Char}
    (h : readArguments depth cs = .error .tooDeep) : depth ≤ cs.length := by
  induction hn : cs.length using Nat.strongRecOn generalizing cs with
  | ind n ih =>
    by_cases hhead : (skipBlanks cs).head? = some ')'
    · obtain ⟨behind, hclose⟩ := List.head?_eq_some_iff.1 hhead
      rw [readArguments_close hclose] at h
      cases h
    · rw [readArguments_first hhead] at h
      cases hfirst : readExpression depth cs with
      | error failure =>
        simp only [hfirst, Except.error.injEq] at h
        exact hn ▸ hread (h ▸ hfirst)
      | ok read =>
        obtain ⟨e, left⟩ := read
        have hlength := length_readExpression_lt hfirst
        simp only [hfirst] at h
        obtain ⟨inner, hcomma, hmore⟩ := readMore_tooDeep h
        have hinner := length_lt_of_skipBlanks hcomma
        have := ih _ (by omega) hmore rfl
        omega

theorem lt_length_of_readCalls (hread : ReachesLimit depth) {cs : List Char} {e : Expr}
    (h : readCalls depth e cs = .error .tooDeep) : depth < cs.length := by
  induction hn : cs.length using Nat.strongRecOn generalizing cs e with
  | ind n ih =>
    by_cases hhead : (skipBlanks cs).head? = some '('
    · obtain ⟨inner, hopen⟩ := List.head?_eq_some_iff.1 hhead
      have hinner := length_lt_of_skipBlanks hopen
      rw [readCalls_open hopen] at h
      cases hlist : readArguments depth inner with
      | error failure =>
        simp only [hlist, Except.error.injEq] at h
        have := le_length_of_readArguments hread (h ▸ hlist)
        omega
      | ok read =>
        obtain ⟨args, left⟩ := read
        have hlength := length_readArguments_lt hlist
        simp only [hlist] at h
        have := ih _ (by omega) h rfl
        omega
    · rw [readCalls_done hhead] at h
      cases h

theorem reachesLimit : ∀ depth, ReachesLimit depth
  | 0, _, _ => Nat.zero_le _
  | depth + 1, cs, h => by
    by_cases hfirst : ∃ first left, Primary (skipBlanks cs) first left
    · obtain ⟨first, left, hfirst⟩ := hfirst
      have hskip := skipBlanks_length_le cs
      have hleft := hfirst.length_lt
      rw [readExpression_primary hfirst] at h
      have := lt_length_of_readCalls (reachesLimit depth) h
      omega
    · simp only [not_exists] at hfirst
      rw [readExpression_refused hfirst] at h
      cases h

/-- A text shorter than the depth is never too deeply nested. -/
theorem program_ne_tooDeep (h : cs.length < depth) : program depth cs ≠ .error .tooDeep := by
  intro hdeep
  rw [program_eq] at hdeep
  cases hread : readExpression depth cs with
  | error failure =>
    simp only [hread, Except.error.injEq] at hdeep
    have := reachesLimit depth (hdeep ▸ hread)
    omega
  | ok read =>
    simp only [hread] at hdeep
    split at hdeep <;> cases hdeep

theorem parse_eq_ok_iff_program {text : String} :
    parse depth text = .ok e ↔ program depth text.toList = .ok e := by
  unfold parse
  cases hread : program depth text.toList with
  | ok e' => simp [hread]
  | error failure => cases failure <;> simp [hread]

theorem parse_eq_tooDeep_iff_program {text : String} :
    parse depth text = .error .tooDeep ↔ program depth text.toList = .error .tooDeep := by
  unfold parse
  cases hread : program depth text.toList with
  | ok e' => simp [hread]
  | error failure => cases failure <;> simp [hread]

theorem Program.parse {text : String} (h : Program text.toList e) (depth : Nat) :
    parse depth text = if e.callDepth < depth then .ok e else .error .tooDeep := by
  by_cases hdepth : e.callDepth < depth
  · rw [if_pos hdepth, parse_eq_ok_iff_program, h.read, if_pos hdepth]
  · rw [if_neg hdepth, parse_eq_tooDeep_iff_program, h.read, if_neg hdepth]

theorem parse_eq_ok_iff {text : String} :
    parse depth text = .ok e ↔ Program text.toList e ∧ e.callDepth < depth := by
  constructor
  · intro h
    exact (program_sound (parse_eq_ok_iff_program.1 h)).symm
  · rintro ⟨h, hdepth⟩
    rw [h.parse, if_pos hdepth]

/-- The digits of a literal are those of its number in base ten, the most significant one first. -/
theorem digitsValue_eq_ofDigits (digits : List Char) :
    digitsValue digits = Nat.ofDigits 10 (digits.reverse.map fun c => c.toNat - '0'.toNat) := by
  rw [Nat.ofDigits_eq_foldr, List.map_reverse, List.foldr_reverse, List.foldl_map]
  unfold digitsValue
  congr 1
  funext n c
  exact Nat.add_comm _ _

theorem program_digits (hne : cs ≠ []) (hdigit : ∀ c ∈ cs, c.isDigit = true) :
    Program cs (numberLiteral cs) :=
  ⟨[], @Expression.primary [] _ _ _ rfl
    (.number ⟨(List.append_nil cs).symm, hne, hdigit, rfl⟩), rfl⟩

/-- Where the limit on nesting is not reached, parsing answers with exactly the tree that the text
derives, and refuses a text that derives none. No text reaches a limit that is greater than its own
length. What digits derive is the double nearest to the number that they are in base ten. -/
theorem parse_accepts_iff_derives (text : String) :
    (∀ depth, text.toList.length < depth → parse depth text ≠ .error .tooDeep) ∧
    (∀ depth, parse depth text ≠ .error .tooDeep →
      (∀ e, parse depth text = .ok e ↔ Program text.toList e) ∧
      ((¬ ∃ e, Program text.toList e) →
        ∃ refusal offset, parse depth text = .error (.refused refusal offset))) ∧
    (text.toList ≠ [] → (∀ c ∈ text.toList, c.isDigit = true) → ∀ depth, 0 < depth →
      parse depth text = .ok (.literal (.number (Decimal.nearest
        (Nat.ofDigits 10 (text.toList.reverse.map fun c => c.toNat - '0'.toNat))) 0))) := by
  refine ⟨fun depth hlength hdeep => ?_, fun depth hroom => ?_, fun hne hdigit depth hdepth => ?_⟩
  · exact program_ne_tooDeep hlength (parse_eq_tooDeep_iff_program.1 hdeep)
  · have hiff : ∀ e, parse depth text = .ok e ↔ Program text.toList e := by
      intro e
      refine ⟨fun h => (parse_eq_ok_iff.1 h).1, fun h => ?_⟩
      rw [h.parse] at hroom ⊢
      by_cases hdepth : e.callDepth < depth
      · rw [if_pos hdepth]
      · exact absurd (if_neg hdepth) hroom
    refine ⟨hiff, fun hnone => ?_⟩
    cases hparse : parse depth text with
    | ok e => exact absurd ⟨e, (hiff e).1 hparse⟩ hnone
    | error failure =>
      cases failure with
      | refused refusal offset => exact ⟨refusal, offset, rfl⟩
      | tooDeep => exact absurd hparse hroom
  · rw [(program_digits hne hdigit).parse, if_pos (by simpa [numberLiteral, callDepth] using hdepth),
      numberLiteral, digitsValue_eq_ofDigits]

/-- A call with a comma after its last argument derives a tree, a number with zeros before it among
the arguments, and a lone parenthesis derives none. -/
theorem parse_trailing_comma_and_lone_close :
    parse 16 "\"f\"(\"x\", 012, )" = .ok (.apply (stringLiteral ['f'])
        [stringLiteral ['x'], .literal (.number (Decimal.nearest 12) 0)]) ∧
      (∃ refusal offset, parse 2 ")" = .error (.refused refusal offset)) ∧
      parse 1 "0120" = .ok (.literal (.number (Decimal.nearest 120) 0)) := by
  refine ⟨?_, ?_, ?_⟩
  · have hroom := (parse_accepts_iff_derives "\"f\"(\"x\", 012, )").1 16 (by decide)
    refine (((parse_accepts_iff_derives "\"f\"(\"x\", 012, )").2.1 16 hroom).1 _).2 ?_
    have operator : Expression "\"f\"(\"x\", 012, )".toList (stringLiteral ['f'])
        "(\"x\", 012, )".toList :=
      @Expression.primary [] _ _ _ rfl (@Primary.string ['f'] _ (by decide))
    have first : Expression "\"x\", 012, )".toList (stringLiteral ['x']) ", 012, )".toList :=
      @Expression.primary [] _ _ _ rfl (@Primary.string ['x'] _ (by decide))
    have second : Expression " 012, )".toList (numberLiteral ['0', '1', '2']) ", )".toList :=
      @Expression.primary [' '] _ _ _ rfl
        (.number ⟨rfl, by decide, List.all_eq_true.1 rfl, by decide⟩)
    have hvalue : digitsValue ['0', '1', '2'] = 12 := by decide
    rw [numberLiteral, hvalue] at second
    have more : MoreArguments ", )".toList [] [] :=
      @MoreArguments.closeAfterComma [] [' '] [] rfl rfl
    exact ⟨[], @Expression.call _ [] _ _ _ _ operator rfl
      (.nonempty first (@MoreArguments.next [] _ _ _ _ _ rfl second more)), rfl⟩
  · have hroom := (parse_accepts_iff_derives ")").1 2 (by decide)
    refine ((parse_accepts_iff_derives ")").2.1 2 hroom).2 ?_
    rintro ⟨e, rest, hexpr, -⟩
    exact hexpr.head?_ne_close rfl
  · have hvalue : Nat.ofDigits 10 ("0120".toList.reverse.map fun c => c.toNat - '0'.toNat) = 120 := by
      decide
    rw [← hvalue]
    exact (parse_accepts_iff_derives "0120").2.2 (by decide) (List.all_eq_true.1 rfl) 1 (by decide)

end CallScript.Grammar
