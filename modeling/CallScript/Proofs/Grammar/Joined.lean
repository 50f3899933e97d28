import CallScript.Proofs.Grammar.Acceptance
import CallScript.Proofs.Grammar.Placement
import Mathlib.Data.List.Forall2

/-!
# Programs as the arguments of a call

Programs stay what they are between the commas of an argument list. The blanks behind a program stand
before the comma there, and neither a comma nor a closing parenthesis goes on with a word.
-/

namespace CallScript.Grammar

open Text CallScript.Expr

variable {cs behind : List Char} {e : Expr} {css : List (List Char)} {es : List Expr}

theorem Program.before (h : Program cs e) (hbehind : behind.head?.any isWordChar = false) :
    ∃ blanks, isBlankText blanks = true ∧ Expression (cs ++ behind) e (blanks ++ behind) := by
  obtain ⟨rest, hexpr, hrest⟩ := h
  obtain ⟨piece, -, rfl, hpiece⟩ := hexpr.stands
  refine ⟨rest, hrest, ?_⟩
  rw [List.append_assoc]
  exact hpiece _ (stopsAlike_append_self hbehind rest)

def argumentTexts (css : List (List Char)) : List Char :=
  css.flatMap (", ".toList ++ ·) ++ [')']

theorem no_word_before_argumentTexts (css : List (List Char)) :
    (argumentTexts css).head?.any isWordChar = false := by
  cases css <;> rfl

theorem moreArguments_of_programs (h : List.Forall₂ Program css es) {blanks : List Char}
    (hblanks : isBlankText blanks = true) : MoreArguments (blanks ++ argumentTexts css) es [] := by
  induction h generalizing blanks with
  | nil => exact .close hblanks
  | @cons cs e css es first _ ih =>
    obtain ⟨blanks', hblanks', hfirst⟩ := first.before (no_word_before_argumentTexts css)
    have hspace : isBlankText [' '] = true := by decide
    have hnext := MoreArguments.next hblanks (hfirst.afterBlanks hspace) (ih hblanks')
    simpa [argumentTexts] using hnext

theorem intercalate_cons (separator cs : List Char) (css : List (List Char)) :
    separator.intercalate (cs :: css) = cs ++ css.flatMap (separator ++ ·) := by
  induction css generalizing cs with
  | nil => rw [List.intercalate_singleton, List.flatMap_nil, List.append_nil]
  | cons cs' css ih =>
    rw [List.intercalate_cons_cons, ih, List.flatMap_cons, List.append_assoc, List.append_assoc]

/-- A call of a word with texts as its arguments. -/
def callText (name : String) (texts : List String) : String :=
  name ++ "(" ++ String.intercalate ", " texts ++ ")"

theorem toList_callText (name : String) (text : String) (texts : List String) :
    (callText name (text :: texts)).toList =
      name.toList ++ '(' :: (text.toList ++ argumentTexts (texts.map String.toList)) := by
  have hopen : "(".toList = ['('] := rfl
  have hclose : ")".toList = [')'] := rfl
  simp only [callText, argumentTexts, String.toList_append, String.toList_intercalate, List.map_cons,
    intercalate_cons, hopen, hclose, List.append_assoc, List.cons_append, List.nil_append]

theorem program_callText {name : String} (hname : IsName name.toList) {text : String}
    {texts : List String} (h : List.Forall₂ Program ((text :: texts).map String.toList) es) :
    Program (callText name (text :: texts)).toList (.apply (.word name) es) := by
  rw [List.map_cons] at h
  cases h with
  | cons first more =>
    obtain ⟨blanks, hblanks, hfirst⟩ := first.before (no_word_before_argumentTexts _)
    have list := Arguments.nonempty hfirst (moreArguments_of_programs more hblanks)
    refine ⟨[], ?_, rfl⟩
    rw [toList_callText]
    exact @Expression.call _ [] _ _ _ _ (.ofName hname rfl) rfl list

end CallScript.Grammar
