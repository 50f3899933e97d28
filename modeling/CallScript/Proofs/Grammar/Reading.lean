import CallScript.Grammar.Parse
import CallScript.Proofs.Grammar.Token

/-!
# The rules of reading

The readers of expressions, argument lists and calls keep a proof that they make progress in every
answer. What the answers say is read off here without that proof, one equation for each way a reader
can go on. Nothing after this file looks into the definitions of the readers.
-/

namespace CallScript.Grammar

open Text

def readExpression (depth : Nat) (cs : List Char) : Except Failure (Expr × List Char) :=
  (expression depth cs).map Read.result

def readArguments (depth : Nat) (cs : List Char) : Except Failure (List Expr × List Char) :=
  (arguments (expression depth) cs).map fun list => (list.args, list.rest)

def readCalls (depth : Nat) (e : Expr) (cs : List Char) : Except Failure (Expr × List Char) :=
  (calls (expression depth) e cs).map fun call => (call.expr, call.rest)

variable {depth : Nat} {cs rest : List Char} {e : Expr}

@[simp] theorem readExpression_zero : readExpression 0 cs = .error .tooDeep := rfl

theorem readExpression_refused (h : ∀ e rest, ¬ Primary (skipBlanks cs) e rest) :
    readExpression (depth + 1) cs = .error (.refused .unexpected (skipBlanks cs)) := by
  have hnone : primary? (skipBlanks cs) = none := by
    cases hp : primary? (skipBlanks cs) with
    | none => rfl
    | some read =>
      refine absurd (primary?_eq_some_iff.1 ?_) (h read.expr read.rest)
      rw [hp]
      rfl
  unfold readExpression expression
  rw [hnone]
  rfl

theorem readExpression_primary (h : Primary (skipBlanks cs) e rest) :
    readExpression (depth + 1) cs = readCalls depth e rest := by
  have hread := primary?_eq_some_iff.2 h
  cases hp : primary? (skipBlanks cs) with
  | none => simp [hp] at hread
  | some read =>
    rw [hp] at hread
    simp only [Option.map_some, Read.result, Option.some.injEq, Prod.mk.injEq] at hread
    obtain ⟨rfl, rfl⟩ := hread
    unfold readExpression expression readCalls
    rw [hp]
    cases hcalls : calls (expression depth) read.expr read.rest with
    | error failure => simp only [hcalls, Except.map]
    | ok call => simp only [hcalls, Except.map, Read.result]

@[simp] theorem readExpression_skipBlanks :
    readExpression depth (skipBlanks cs) = readExpression depth cs := by
  cases depth with
  | zero => rfl
  | succ depth =>
    by_cases h : ∃ e rest, Primary (skipBlanks cs) e rest
    · obtain ⟨e, rest, h⟩ := h
      rw [readExpression_primary h, readExpression_primary (by rwa [skipBlanks_skipBlanks])]
    · simp only [not_exists] at h
      rw [readExpression_refused h, readExpression_refused (by rwa [skipBlanks_skipBlanks]),
        skipBlanks_skipBlanks]

theorem readCalls_open {inner : List Char} (h : skipBlanks cs = '(' :: inner) :
    readCalls depth e cs =
      match readArguments depth inner with
      | .error failure => .error failure
      | .ok (args, rest) => readCalls depth (.apply e args) rest := by
  unfold readCalls
  rw [calls]
  split
  · next inner' hc =>
    obtain rfl : inner = inner' := by simpa [h] using hc
    unfold readArguments
    cases harguments : arguments (expression depth) inner with
    | error failure => rfl
    | ok list =>
      simp only [Except.map]
      cases hcalls : calls (expression depth) (.apply e list.args) list.rest <;> rfl
  · next hne => exact absurd h (hne inner)

theorem readCalls_done (h : (skipBlanks cs).head? ≠ some '(') :
    readCalls depth e cs = .ok (e, skipBlanks cs) := by
  unfold readCalls
  rw [calls]
  split
  · next inner hc => simp [hc] at h
  · rfl

theorem readArguments_close (h : skipBlanks cs = ')' :: rest) :
    readArguments depth cs = .ok ([], rest) := by
  unfold readArguments
  rw [arguments]
  split
  · next rest' hc =>
    obtain rfl : rest = rest' := by simpa [h] using hc
    rfl
  · next hne => exact absurd h (hne rest)

/-- The arguments of a call behind the first one: the end of the list, or a comma and what is left of
the list. -/
def readMore (depth : Nat) (e : Expr) (cs : List Char) : Except Failure (List Expr × List Char) :=
  match skipBlanks cs with
  | ')' :: rest => .ok ([e], rest)
  | ',' :: rest =>
    match readArguments depth rest with
    | .error failure => .error failure
    | .ok (es, rest) => .ok (e :: es, rest)
  | other => .error (.refused .expectedSeparator other)

theorem readMore_close (h : skipBlanks cs = ')' :: rest) :
    readMore depth e cs = .ok ([e], rest) := by
  simp only [readMore, h]

theorem readMore_comma (h : skipBlanks cs = ',' :: rest) :
    readMore depth e cs =
      match readArguments depth rest with
      | .error failure => .error failure
      | .ok (es, rest) => .ok (e :: es, rest) := by
  simp only [readMore, h]

theorem readMore_refused (hclose : (skipBlanks cs).head? ≠ some ')')
    (hcomma : (skipBlanks cs).head? ≠ some ',') :
    readMore depth e cs = .error (.refused .expectedSeparator (skipBlanks cs)) := by
  unfold readMore
  split
  · next hc => simp [hc] at hclose
  · next hc => simp [hc] at hcomma
  · rfl

theorem readArguments_first (h : (skipBlanks cs).head? ≠ some ')') :
    readArguments depth cs =
      match readExpression depth cs with
      | .error failure => .error failure
      | .ok (e, rest) => readMore depth e rest := by
  rw [← readExpression_skipBlanks]
  unfold readArguments readExpression
  rw [arguments]
  split
  · next hc => simp [hc] at h
  · cases expression depth (skipBlanks cs) with
    | error failure => rfl
    | ok arg =>
      show Except.map _ _ = readMore depth arg.expr arg.rest
      dsimp only
      split
      · next hmore => rw [readMore_close hmore]; rfl
      · next rest hmore =>
        rw [readMore_comma hmore, readArguments]
        cases arguments (expression depth) rest <;> rfl
      · next hclose hcomma =>
        rw [readMore_refused]
        · rfl
        · intro hc
          obtain ⟨rest, hc⟩ := List.head?_eq_some_iff.1 hc
          exact hclose rest hc
        · intro hc
          obtain ⟨rest, hc⟩ := List.head?_eq_some_iff.1 hc
          exact hcomma rest hc

theorem program_eq : program depth cs =
    match readExpression depth cs with
    | .error failure => .error failure
    | .ok (e, rest) =>
      if skipBlanks rest = [] then .ok e else .error (.refused .trailing (skipBlanks rest)) := by
  unfold program readExpression
  cases expression depth cs with
  | error failure => rfl
  | ok read =>
    simp only [Except.map, Read.result]
    split
    · next h => rw [if_pos h]
    · next h => rw [if_neg h]

end CallScript.Grammar
