import CallScript.Expr.Print
import CallScript.Proofs.Decimal.Integral
import CallScript.Proofs.Grammar.Completeness

/-!
# Expressions that programs can hold

The literals of a program are strings without a double quote and integral numbers that are not
negative, infinity among them, and its words are none that a reader would take for something else.
Every such expression has a text that reads back as the expression, but for infinity: it has no
literal of its own, is written `inf`, and so comes back as a word.
-/

namespace CallScript

open Decimal Text Grammar

/-- The value that no literal of a program stands for, though a program may hold it. -/
def Value.isInfinity : Value → Bool
  | number x _ => Dyadic.ofFloat x == .infinite false
  | _ => false

theorem Value.literalText_of_isInfinity {v : Value} (h : v.isInfinity = true) :
    v.literalText = "inf" := by
  cases v with
  | number x mark =>
    have hx : Dyadic.ofFloat x = .infinite false := by simpa [isInfinity] using h
    simp only [literalText, hx, Dyadic.toInt?, numeral]
    rfl
  | _ => cases h

theorem Value.literalText_of_isNatural {x : Float} {mark n : Nat}
    (h : (Dyadic.ofFloat x).IsNatural n) :
    (number x mark).literalText = String.ofList (Nat.toDigits 10 n) := by
  simp only [literalText, h.toInt?_eq, integerText, Int.natAbs_natCast]
  rw [if_neg (Int.not_lt.2 (Int.natCast_nonneg n))]

namespace Expr

/-- A name that stands for itself in a program. One that begins with digits must go on with an ASCII
letter or an underscore behind them, for else the digits would be a number. -/
structure IsName (name : List Char) : Prop where
  nonempty : name ≠ []
  char : ∀ c ∈ name, isWordChar c = true
  notNumber : name.head?.any Char.isDigit = true →
    (name.dropWhile Char.isDigit).head?.any (fun c => c.isAlpha || c == '_') = true

/-- An integral double whose sign bit is clear, or infinity. -/
def IsLiteralNumber (x : Float) : Prop :=
  (∃ n, (Dyadic.ofFloat x).IsNatural n) ∨ Dyadic.ofFloat x = .infinite false

/-- An expression that programs can hold. Its numbers bear no mark, as none does but NaN. -/
inductive WellFormed : Expr → Prop where
  | string {text : String} (closed : '"' ∉ text.toList) : WellFormed (.literal (.string text))
  | number {x : Float} (plain : IsLiteralNumber x) : WellFormed (.literal (.number x 0))
  | word {name : String} (plain : IsName name.toList) : WellFormed (.word name)
  | apply {operator : Expr} {args : List Expr} (first : WellFormed operator)
      (rest : ∀ arg ∈ args, WellFormed arg) : WellFormed (.apply operator args)

/-- Somewhere in the expression stands infinity as a literal. -/
inductive HoldsInfinity : Expr → Prop where
  | literal {v : Value} (infinite : v.isInfinity = true) : HoldsInfinity (.literal v)
  | operator {f : Expr} {args : List Expr} (inside : HoldsInfinity f) : HoldsInfinity (.apply f args)
  | arg {f e : Expr} {args : List Expr} (mem : e ∈ args) (inside : HoldsInfinity e) :
      HoldsInfinity (.apply f args)

mutual

/-- The expression with the word `inf` in the place of every infinite literal. -/
def readBack : Expr → Expr
  | literal v => if v.isInfinity then word "inf" else literal v
  | apply operator args => apply operator.readBack (readBackAll args)
  | e => e

def readBackAll : List Expr → List Expr
  | [] => []
  | e :: rest => e.readBack :: readBackAll rest

end

mutual

theorem chars_readBack : ∀ e : Expr, e.readBack.chars = e.chars
  | literal v => by
    by_cases h : v.isInfinity = true
    · simp only [readBack, if_pos h, chars, Value.literalText_of_isInfinity h]
    · simp only [readBack, if_neg h]
  | word _ => rfl
  | foreign .. => rfl
  | apply operator args => by
    simp only [readBack, chars, chars_readBack operator, argChars_readBackAll args]

theorem argChars_readBackAll : ∀ es : List Expr, argChars (readBackAll es) = argChars es
  | [] => rfl
  | e :: rest => by
    simp only [readBackAll, argChars, chars_readBack e, moreArgChars_readBackAll rest]

theorem moreArgChars_readBackAll : ∀ es : List Expr, moreArgChars (readBackAll es) = moreArgChars es
  | [] => rfl
  | e :: rest => by
    simp only [readBackAll, moreArgChars, chars_readBack e, moreArgChars_readBackAll rest]

end

theorem text_readBack (e : Expr) : e.readBack.text = e.text := by
  rw [text, text, chars_readBack]

mutual

theorem callDepth_readBack : ∀ e : Expr, e.readBack.callDepth = e.callDepth
  | literal v => by
    by_cases h : v.isInfinity = true
    · simp only [readBack, if_pos h, callDepth]
    · simp only [readBack, if_neg h]
  | word _ => rfl
  | foreign .. => rfl
  | apply operator args => by
    simp only [readBack, callDepth, callDepth_readBack operator, argsDepth_readBackAll args]

theorem argsDepth_readBackAll : ∀ es : List Expr, argsDepth (readBackAll es) = argsDepth es
  | [] => rfl
  | e :: rest => by
    simp only [readBackAll, argsDepth, callDepth_readBack e, argsDepth_readBackAll rest]

end

mutual

/-- Reading back changes an expression exactly if it holds infinity. -/
theorem readBack_eq_self_iff : ∀ e : Expr, e.readBack = e ↔ ¬ e.HoldsInfinity
  | literal v => by
    by_cases h : v.isInfinity = true
    · simp only [readBack, if_pos h, reduceCtorEq, false_iff]
      exact fun hnone => hnone (.literal h)
    · simp only [readBack, if_neg h, true_iff]
      rintro ⟨hinfinite⟩
      exact h hinfinite
  | word _ => by
    simp only [readBack, true_iff]
    exact nofun
  | foreign .. => by
    simp only [readBack, true_iff]
    exact nofun
  | apply operator args => by
    simp only [readBack, apply.injEq, readBack_eq_self_iff operator, readBackAll_eq_self_iff args]
    constructor
    · rintro ⟨hoperator, hargs⟩ h
      cases h with
      | operator inside => exact hoperator inside
      | arg mem inside => exact hargs _ mem inside
    · intro h
      exact ⟨fun inside => h (.operator inside), fun e mem inside => h (.arg mem inside)⟩

theorem readBackAll_eq_self_iff : ∀ es : List Expr,
    readBackAll es = es ↔ ∀ e ∈ es, ¬ e.HoldsInfinity
  | [] => by simp [readBackAll]
  | e :: rest => by
    simp only [readBackAll, List.cons.injEq, readBack_eq_self_iff e, readBackAll_eq_self_iff rest,
      List.forall_mem_cons]

end

end Expr

end CallScript
