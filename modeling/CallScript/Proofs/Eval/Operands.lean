import CallScript.Proofs.Decimal.Index
import CallScript.Proofs.Eval.Parallel
import CallScript.Proofs.Value.Shown

/-!
# What native functions accept

A native function refuses its arguments for their number, for the first operand that is not of the type
asked for, or, if the types are right, for an index out of range. Otherwise it gives a value, unless it
would have to look into arrays deeper than allowed. A refusal changes nothing, and of all the calls only
that of a printing function writes anything.
-/

namespace CallScript

open Decimal

/-- The type that is asked for. -/
def Operand.kind : Operand → Value.Kind
  | array => .array
  | _ => .number

namespace Value

variable {v : Value}

theorem exists_number (h : v.kind = .number) : ∃ x mark, v = number x mark := by
  cases v <;> cases h
  exact ⟨_, _, rfl⟩

theorem exists_string (h : v.kind = .string) : ∃ text, v = string text := by
  cases v <;> cases h
  exact ⟨_, rfl⟩

theorem exists_array (h : v.kind = .array) : ∃ id elements, v = array id elements := by
  cases v <;> cases h
  exact ⟨_, _, rfl⟩

end Value

namespace Native

variable {op : Native} {asked : Operand} {depth : Nat} {args : List Value} {a b v : Value} {w : World}

/-- What a native function asks of each operand. Of `+` this is what it asks of operands that are not
two strings. -/
def asks : Native → List Operand
  | add => [.numberOrString, .numberOrString]
  | subtract | multiply | divide => [.number, .number]
  | length => [.array]
  | element => [.array, .index]
  | _ => []

/-- Of the operands, this is the first one that is not of the type asked for. -/
inductive FirstMisfit : List Operand → List Value → Operand → Value → Prop where
  | here {asked more v rest} (wrong : v.kind ≠ asked.kind) :
      FirstMisfit (asked :: more) (v :: rest) asked v
  | later {fitting more u rest asked v} (fits : u.kind = fitting.kind)
      (misfit : FirstMisfit more rest asked v) :
      FirstMisfit (fitting :: more) (u :: rest) asked v

/-- Two strings are joined. -/
def Joins (op : Native) (args : List Value) : Prop :=
  op = add ∧ ∀ v ∈ args, v.kind = .string

theorem not_joins (h : op ≠ add) : ¬ Joins op args :=
  fun hjoins => h hjoins.1

/-- The kind of the error and the message with which a native function refuses its arguments. -/
inductive Refuses : Native → List Value → ErrorKind → String → Prop where
  | count {op : Native} {args : List Value} {n : Nat} (takes : op.arity = some n)
      (wrong : args.length ≠ n) :
      Refuses op args .type (op.name ++ " expects " ++ toString n ++
        (if n = 1 then " argument" else " arguments") ++ ", got " ++ toString args.length)
  | operand {op : Native} {args : List Value} {asked : Operand} {v : Value}
      (count : args.length = op.asks.length)
      (noJoin : ¬ Joins op args) (misfit : FirstMisfit op.asks args asked v) :
      Refuses op args .type (op.name ++ " expects " ++ asked.wording ++ ", got " ++ v.kind.name)
  | operands {op : Native} {a b : Value} (compares : op = less ∨ op = greater)
      (numbers : ¬ (a.kind = .number ∧ b.kind = .number))
      (strings : ¬ (a.kind = .string ∧ b.kind = .string)) :
      Refuses op [a, b] .type (op.name ++ " expects two numbers or two strings, got " ++
        a.kind.name ++ " and " ++ b.kind.name)
  | index {id elements x mark} (outside : (Dyadic.ofFloat x).OutOfRange elements.length) :
      Refuses element [.array id elements, .number x mark] .runtime
        ("Index " ++ numberText x ++ " out of range for array of length " ++
          toString elements.length)

theorem expectNumber_of_ne (h : v.kind ≠ .number) :
    expectNumber op asked v = throw (.fault (.badOperand op asked v.kind)) := by
  cases v <;> first | rfl | exact absurd rfl h

theorem expectArray_of_ne (h : v.kind ≠ .array) :
    expectArray op v = throw (.fault (.badOperand op .array v.kind)) := by
  cases v <;> first | rfl | exact absurd rfl h

theorem arithmetic_of_firstMisfit {wanted asked : Operand} (compute : Float → Float → Run Value)
    (hwanted : wanted.kind = .number) (h : FirstMisfit [wanted, wanted] [a, b] asked v) :
    arithmetic op wanted compute a b = throw (.fault (.badOperand op asked v.kind)) := by
  rcases h with wrong | ⟨fits, wrong | ⟨_, h⟩⟩
  · rw [hwanted] at wrong
    rw [arithmetic, expectNumber_of_ne wrong, throw_bind]
  · rw [hwanted] at fits wrong
    obtain ⟨x, mark, rfl⟩ := Value.exists_number fits
    rw [arithmetic, expectNumber, pure_bind, expectNumber_of_ne wrong, throw_bind]
  · cases h

theorem call_add_of_not_joins (h : ¬ Joins add [a, b]) :
    add.call depth [a, b] =
      arithmetic add .numberOrString (fun x y => World.newNumber (x + y)) a b := by
  have hjoin : ¬ (a.kind = .string ∧ b.kind = .string) := by
    rintro ⟨ha, hb⟩
    exact h ⟨rfl, by simp [ha, hb]⟩
  cases a <;> cases b <;> first | rfl | exact absurd ⟨rfl, rfl⟩ hjoin

theorem call_of_firstMisfit (count : args.length = op.asks.length) (noJoin : ¬ Joins op args)
    (misfit : FirstMisfit op.asks args asked v) :
    op.call depth args = throw (.fault (.badOperand op asked v.kind)) := by
  cases op with
  | add =>
    obtain ⟨a, b, rfl⟩ := List.length_eq_two.1 count
    rw [call_add_of_not_joins noJoin]
    exact arithmetic_of_firstMisfit _ rfl misfit
  | subtract | multiply | divide =>
    obtain ⟨a, b, rfl⟩ := List.length_eq_two.1 count
    exact arithmetic_of_firstMisfit _ rfl misfit
  | length =>
    obtain ⟨a, rfl⟩ := List.length_eq_one_iff.1 count
    rcases misfit with wrong | ⟨_, h⟩
    · rw [call, expectArray_of_ne wrong, throw_bind]
    · cases h
  | element =>
    obtain ⟨a, b, rfl⟩ := List.length_eq_two.1 count
    rcases misfit with wrong | ⟨fits, wrong | ⟨_, h⟩⟩
    · rw [call, expectArray_of_ne wrong, throw_bind]
    · obtain ⟨id, elements, rfl⟩ := Value.exists_array fits
      rw [call, expectArray, pure_bind, expectNumber_of_ne wrong, throw_bind]
    · cases h
  | _ => cases misfit

theorem comparison_of_misfits (numbers : Float → Float → Bool) (strings : String → String → Bool)
    (hnumbers : ¬ (a.kind = .number ∧ b.kind = .number))
    (hstrings : ¬ (a.kind = .string ∧ b.kind = .string)) :
    comparison op numbers strings a b = throw (.fault (.badOperands op a.kind b.kind)) := by
  cases a <;> cases b <;>
    first | rfl | exact absurd ⟨rfl, rfl⟩ hnumbers | exact absurd ⟨rfl, rfl⟩ hstrings

/-- One argument is called so. -/
theorem message_nativeArity (op : Native) (n given : Nat) :
    (Fault.nativeArity op n given).message = op.name ++ " expects " ++ toString n ++
      (if n = 1 then " argument" else " arguments") ++ ", got " ++ toString given := by
  have hmessage : (Fault.nativeArity op n given).message = op.name ++ " expects " ++ toString n ++
      " argument" ++ (if n = 1 then "" else "s") ++ ", got " ++ toString given := rfl
  rw [hmessage]
  by_cases hn : n = 1
  · rw [if_pos hn, if_pos hn, String.append_empty]
  · have hplural : " argument" ++ "s" = " arguments" := by decide
    rw [if_neg hn, if_neg hn, ← hplural, ← String.append_assoc]

/-- Arguments are refused with the error for them, and nothing is changed. -/
theorem call_of_refuses {kind : ErrorKind} {text : String} (h : Refuses op args kind text) :
    ∃ cause, op.call depth args = throw (.fault cause) ∧ cause.kind = kind ∧ cause.message = text := by
  cases h with
  | @count _ _ n takes wrong =>
    exact ⟨_, call_wrongCount takes wrong, rfl, message_nativeArity op n args.length⟩
  | operand count noJoin misfit => exact ⟨_, call_of_firstMisfit count noJoin misfit, rfl, rfl⟩
  | operands compares numbers strings =>
    rcases compares with rfl | rfl <;>
      exact ⟨_, comparison_of_misfits _ _ numbers strings, rfl, rfl⟩
  | @index id elements x mark outside =>
    refine ⟨.outOfRange (numberText x) elements.length, ?_, rfl, rfl⟩
    have hcall : element.call depth [.array id elements, .number x mark] = elementAt elements x := rfl
    rw [hcall, elementAt, index?_eq_none_iff.2 outside]
    rfl

theorem not_refuses_array (elements : List Value) (kind : ErrorKind) (text : String) :
    ¬ Refuses array elements kind text := by
  intro h
  cases h with
  | count takes => cases takes
  | operand _ _ misfit => cases misfit
  | operands compares => rcases compares with h | h <;> cases h

/-- What a native function gives for arguments that it does not refuse. -/
inductive Answers : Native → List Value → Value → Prop where
  | joined {s t} : Answers add [.string s, .string t] (.string (s ++ t))
  | sum {x y m m' mark} : Answers add [.number x m, .number y m'] (.number (x + y) mark)
  | difference {x y m m' mark} : Answers subtract [.number x m, .number y m'] (.number (x - y) mark)
  | product {x y m m' mark} : Answers multiply [.number x m, .number y m'] (.number (x * y) mark)
  | quotient {x y m m' mark} : Answers divide [.number x m, .number y m'] (.number (x / y) mark)
  | equality {a b depth answer} (compared : Value.equals? depth a b = some answer) :
      Answers equal [a, b] (.boolean answer)
  | lessNumber {x y m m'} : Answers less [.number x m, .number y m'] (.boolean (x < y))
  | lessString {s t} : Answers less [.string s, .string t] (.boolean (s < t))
  | greaterNumber {x y m m'} : Answers greater [.number x m, .number y m'] (.boolean (y < x))
  | greaterString {s t} : Answers greater [.string s, .string t] (.boolean (t < s))
  | printed {writes v} : Answers (print writes) [v] v
  | array {id elements} : Answers array elements (.array id elements)
  | length {id elements} :
      Answers length [.array id elements] (.number (nearest elements.length) 0)
  | element {id elements x mark i v} (place : (Dyadic.ofFloat x).rational? = some (i : Nat))
      (there : elements[i]? = some v) : Answers element [.array id elements, .number x mark] v

/-- The arrays among the arguments are nested too deep for a comparison, or for a text to be written. -/
def LooksTooDeep (depth : Nat) (op : Native) (args : List Value) : Prop :=
  (op = equal ∨ op = print true) ∧ ∃ v ∈ args, depth ≤ v.nesting

/-- No frame is changed, and nothing is recorded but the line that a printing function writes. -/
structure OnlyPrints (depth : Nat) (op : Native) (v : Value) (w w' : World) : Prop where
  frames : w'.frames = w.frames
  printed : op = print true →
    ∃ text, v.text? depth false = some text ∧ w'.events = w.events.push (.line text)
  silent : op ≠ print true → w'.events = w.events

/-- The call gives a value. -/
def Gives (depth : Nat) (op : Native) (args : List Value) (w : World) : Prop :=
  ∃ v w', op.call depth args w = .ok v w' ∧ Answers op args v ∧ OnlyPrints depth op v w w'

theorem OnlyPrints.of_silent (h : op ≠ print true) (v : Value) (w w' : World)
    (frames : w'.frames = w.frames) (events : w'.events = w.events) :
    OnlyPrints depth op v w w' :=
  ⟨frames, fun hop => absurd hop h, fun _ => events⟩

theorem newNumber_gives (x : Float) (w : World) :
    ∃ mark w', World.newNumber x w = .ok (.number x mark) w' ∧ w'.frames = w.frames ∧
      w'.events = w.events := by
  rw [World.newNumber]
  split
  · exact ⟨w.nextId, w.withObject, rfl, rfl, rfl⟩
  · exact ⟨0, w, rfl, rfl, rfl⟩

theorem quotient_gives (x y : Float) (w : World) :
    ∃ mark w', quotient x y w = .ok (.number (x / y) mark) w' ∧ w'.frames = w.frames ∧
      w'.events = w.events := by
  rw [Native.quotient]
  split
  · exact ⟨0, w, rfl, rfl, rfl⟩
  · exact newNumber_gives (x / y) w

theorem gives_of_result (hop : op ≠ print true) {x y result : Float} {m m' : Nat}
    (hcall : ∃ mark w', op.call depth [.number x m, .number y m'] w = .ok (.number result mark) w' ∧
      w'.frames = w.frames ∧ w'.events = w.events)
    (answers : ∀ mark, Answers op [.number x m, .number y m'] (.number result mark)) :
    Gives depth op [.number x m, .number y m'] w := by
  obtain ⟨mark, w', hresult, frames, events⟩ := hcall
  exact ⟨_, w', hresult, answers mark, .of_silent hop _ _ _ frames events⟩

theorem gives_of_pure (hop : op ≠ print true) (hcall : op.call depth args = pure v)
    (answers : Answers op args v) : Gives depth op args w :=
  ⟨v, w, by rw [hcall]; rfl, answers, .of_silent hop _ _ _ rfl rfl⟩

theorem firstMisfit_or_fits {wanted : List Operand} (h : args.length = wanted.length) :
    (∃ asked v, FirstMisfit wanted args asked v) ∨
      List.Forall₂ (fun v asked => v.kind = Operand.kind asked) args wanted := by
  induction args generalizing wanted with
  | nil =>
    obtain rfl := List.length_eq_zero_iff.1 h.symm
    exact .inr .nil
  | cons v rest ih =>
    obtain ⟨asked, more, rfl⟩ := List.exists_cons_of_length_eq_add_one h.symm
    by_cases fits : v.kind = asked.kind
    · rcases ih (by simpa using h) with ⟨asked', v', misfit⟩ | hall
      · exact .inl ⟨asked', v', .later fits misfit⟩
      · exact .inr (.cons fits hall)
    · exact .inl ⟨asked, v, .here fits⟩

/-- The operands of a native function that does not refuse them are of the types asked for. -/
theorem fits_of_not_refuses (h : ∀ kind text, ¬ Refuses op args kind text)
    (count : args.length = op.asks.length) (noJoin : ¬ Joins op args) :
    List.Forall₂ (fun v asked => v.kind = Operand.kind asked) args op.asks :=
  (firstMisfit_or_fits count).resolve_left fun ⟨_, _, misfit⟩ =>
    h _ _ (.operand count noJoin misfit)

theorem count_of_not_refuses (h : ∀ kind text, ¬ Refuses op args kind text) {n : Nat}
    (takes : op.arity = some n) : args.length = n := by
  by_contra wrong
  exact h _ _ (.count takes wrong)

theorem numbers_of_not_refuses (h : ∀ kind text, ¬ Refuses op args kind text) {wanted : Operand}
    (hasks : op.asks = [wanted, wanted]) (hwanted : wanted.kind = .number)
    (noJoin : ¬ Joins op args) (count : args.length = 2) :
    ∃ x m y m', args = [.number x m, .number y m'] := by
  have hfits := fits_of_not_refuses h (by rw [count, hasks]; rfl) noJoin
  rw [hasks] at hfits
  obtain _ | ⟨ha, _ | ⟨hb, _ | _⟩⟩ := hfits
  obtain ⟨x, m, rfl⟩ := Value.exists_number (ha.trans hwanted)
  obtain ⟨y, m', rfl⟩ := Value.exists_number (hb.trans hwanted)
  exact ⟨x, m, y, m', rfl⟩

/-- Operands of a comparison are two numbers or two strings. -/
theorem comparable_of_not_refuses (h : ∀ kind text, ¬ Refuses op [a, b] kind text)
    (compares : op = less ∨ op = greater) :
    (∃ x m y m', a = .number x m ∧ b = .number y m') ∨ ∃ s t, a = .string s ∧ b = .string t := by
  by_cases numbers : a.kind = .number ∧ b.kind = .number
  · obtain ⟨x, m, rfl⟩ := Value.exists_number numbers.1
    obtain ⟨y, m', rfl⟩ := Value.exists_number numbers.2
    exact .inl ⟨x, m, y, m', rfl, rfl⟩
  · by_cases strings : a.kind = .string ∧ b.kind = .string
    · obtain ⟨s, rfl⟩ := Value.exists_string strings.1
      obtain ⟨t, rfl⟩ := Value.exists_string strings.2
      exact .inr ⟨s, t, rfl, rfl⟩
    · exact absurd (.operands compares numbers strings) (h _ _)

theorem add_gives (h : ∀ kind text, ¬ Refuses add args kind text) : Gives depth add args w := by
  have count := count_of_not_refuses h rfl
  by_cases hjoin : Joins add args
  · obtain ⟨a, b, rfl⟩ := List.length_eq_two.1 count
    obtain ⟨s, rfl⟩ := Value.exists_string (hjoin.2 a (by simp))
    obtain ⟨t, rfl⟩ := Value.exists_string (hjoin.2 b (by simp))
    exact gives_of_pure (by decide) rfl .joined
  · obtain ⟨x, m, y, m', rfl⟩ := numbers_of_not_refuses h rfl rfl hjoin count
    exact gives_of_result (by decide) (newNumber_gives (x + y) w) fun _ => .sum

theorem equal_gives_or_looksTooDeep (h : ∀ kind text, ¬ Refuses equal args kind text) :
    (LooksTooDeep depth equal args ∧ equal.call depth args w = .error .tooDeep w) ∨
      Gives depth equal args w := by
  obtain ⟨a, b, rfl⟩ := List.length_eq_two.1 (count_of_not_refuses h rfl)
  cases hequals : Value.equals? depth a b with
  | none =>
    refine .inl ⟨⟨.inl rfl, a, by simp, ?_⟩, by simp only [call, hequals]; rfl⟩
    by_contra hdepth
    have hanswer := Value.equals?_isSome (Nat.le_of_not_le hdepth) b
    rw [hequals] at hanswer
    cases hanswer
  | some answer =>
    exact .inr (gives_of_pure (by decide) (by simp only [call, hequals]) (.equality hequals))

theorem print_gives_or_looksTooDeep {writes : Bool}
    (h : ∀ kind text, ¬ Refuses (print writes) args kind text) :
    (LooksTooDeep depth (print writes) args ∧ (print writes).call depth args w = .error .tooDeep w) ∨
      Gives depth (print writes) args w := by
  obtain ⟨v, rfl⟩ := List.length_eq_one_iff.1 (count_of_not_refuses h rfl)
  cases writes with
  | false => exact .inr (gives_of_pure (by decide) rfl .printed)
  | true =>
    have hcall : (print true).call depth [v] = printValue depth true v := rfl
    cases htext : v.text? depth false with
    | none =>
      refine .inl ⟨⟨.inr rfl, v, by simp, ?_⟩, by simp only [hcall, printValue, htext]; rfl⟩
      by_contra hdepth
      have hwritten := Value.text?_isSome (Nat.lt_of_not_le hdepth) false
      rw [htext] at hwritten
      cases hwritten
    | some text =>
      refine .inr ⟨v, w.withEvent (.line text), ?_, .printed, rfl, fun _ => ⟨text, htext, rfl⟩, ?_⟩
      · simp only [hcall, printValue, htext]
        rfl
      · exact fun hsilent => absurd rfl hsilent

theorem length_gives (h : ∀ kind text, ¬ Refuses length args kind text) :
    Gives depth length args w := by
  have hfits := fits_of_not_refuses h (count_of_not_refuses h rfl) (not_joins (by decide))
  obtain _ | ⟨hv, _ | _⟩ := hfits
  obtain ⟨id, elements, rfl⟩ := Value.exists_array hv
  exact gives_of_pure (by decide) rfl .length

theorem call_element {id i : Nat} {elements : List Value} {x : Float} {mark : Nat}
    (place : (Dyadic.ofFloat x).rational? = some (i : ℚ)) (there : elements[i]? = some v) :
    element.call depth [.array id elements, .number x mark] = pure v := by
  have hcall : element.call depth [.array id elements, .number x mark] = elementAt elements x := rfl
  have hlt := (List.getElem?_eq_some_iff.1 there).1
  rw [hcall, elementAt, index?_eq_some_iff.2 ⟨place, hlt⟩, Option.bind_some, there]

theorem element_gives (h : ∀ kind text, ¬ Refuses element args kind text) :
    Gives depth element args w := by
  have hfits := fits_of_not_refuses h (count_of_not_refuses h rfl) (not_joins (by decide))
  obtain _ | ⟨hv, _ | ⟨hi, _ | _⟩⟩ := hfits
  obtain ⟨id, elements, rfl⟩ := Value.exists_array hv
  obtain ⟨x, mark, rfl⟩ := Value.exists_number hi
  cases hindex : index? elements.length x with
  | none => exact absurd (.index (index?_eq_none_iff.1 hindex)) (h _ _)
  | some i =>
    obtain ⟨place, hlt⟩ := index?_eq_some_iff.1 hindex
    have there := List.getElem?_eq_getElem hlt
    exact gives_of_pure (by decide) (call_element place there) (.element place there)

/-- Arguments that are not refused get a value, unless a limit on depth keeps from looking at them. -/
theorem gives_or_looksTooDeep (h : ∀ kind text, ¬ Refuses op args kind text) :
    (LooksTooDeep depth op args ∧ op.call depth args w = .error .tooDeep w) ∨
      Gives depth op args w := by
  cases op with
  | add => exact .inr (add_gives h)
  | subtract =>
    obtain ⟨x, m, y, m', rfl⟩ := numbers_of_not_refuses h rfl rfl (not_joins (by decide))
      (count_of_not_refuses h rfl)
    exact .inr (gives_of_result (by decide) (newNumber_gives (x - y) w) fun _ => .difference)
  | multiply =>
    obtain ⟨x, m, y, m', rfl⟩ := numbers_of_not_refuses h rfl rfl (not_joins (by decide))
      (count_of_not_refuses h rfl)
    exact .inr (gives_of_result (by decide) (newNumber_gives (x * y) w) fun _ => .product)
  | divide =>
    obtain ⟨x, m, y, m', rfl⟩ := numbers_of_not_refuses h rfl rfl (not_joins (by decide))
      (count_of_not_refuses h rfl)
    exact .inr (gives_of_result (by decide) (quotient_gives x y w) fun _ => .quotient)
  | equal => exact equal_gives_or_looksTooDeep h
  | less =>
    obtain ⟨a, b, rfl⟩ := List.length_eq_two.1 (count_of_not_refuses h rfl)
    rcases comparable_of_not_refuses h (.inl rfl) with ⟨x, m, y, m', rfl, rfl⟩ | ⟨s, t, rfl, rfl⟩
    · exact .inr (gives_of_pure (by decide) rfl .lessNumber)
    · exact .inr (gives_of_pure (by decide) rfl .lessString)
  | greater =>
    obtain ⟨a, b, rfl⟩ := List.length_eq_two.1 (count_of_not_refuses h rfl)
    rcases comparable_of_not_refuses h (.inr rfl) with ⟨x, m, y, m', rfl, rfl⟩ | ⟨s, t, rfl, rfl⟩
    · exact .inr (gives_of_pure (by decide) rfl .greaterNumber)
    · exact .inr (gives_of_pure (by decide) rfl .greaterString)
  | print writes => exact print_gives_or_looksTooDeep h
  | array =>
    refine .inr ⟨.array w.nextId args, w.withObject, rfl, .array, ?_⟩
    exact .of_silent (by decide) _ _ _ rfl rfl
  | length => exact .inr (length_gives h)
  | element => exact .inr (element_gives h)

/-- A native function fails exactly when it should. Arguments that it refuses end the call with the error
for them, and nothing is changed. For all others it gives a value of the type that it has for them and
only prints, or it does not get to the innermost of arrays nested as deep as the limit. The elements of an
array that was made are what it was made of, each at its index, and the length of the array is the double
nearest to their number, which is this number itself below `2 ^ 53`. -/
theorem fails_exactly_when_refused :
    (∀ depth op args w kind text, Refuses op args kind text →
      ∃ cause, op.call depth args w = .error (.fault cause) w ∧ cause.kind = kind ∧
        cause.message = text) ∧
    (∀ depth op args w, (∀ kind text, ¬ Refuses op args kind text) →
      (LooksTooDeep depth op args ∧ op.call depth args w = .error .tooDeep w) ∨
        ∃ v w', op.call depth args w = .ok v w' ∧ Answers op args v ∧ OnlyPrints depth op v w w') ∧
    ∀ depth elements w, ∃ made w', array.call depth elements w = .ok made w' ∧
      length.call depth [made] w' = .ok (.number (nearest elements.length) 0) w' ∧
      (elements.length < 2 ^ 53 →
        (Dyadic.ofFloat (nearest elements.length)).rational? = some (elements.length : ℚ)) ∧
      ∀ x mark (i : Nat) v, (Dyadic.ofFloat x).rational? = some (i : ℚ) → elements[i]? = some v →
        element.call depth [made, .number x mark] w' = .ok v w' := by
  refine ⟨fun depth op args w kind text h => ?_, fun depth op args w h => gives_or_looksTooDeep h,
    fun depth elements w => ?_⟩
  · obtain ⟨cause, hcall, hkind, hmessage⟩ := call_of_refuses h
    exact ⟨cause, by rw [hcall]; rfl, hkind, hmessage⟩
  · refine ⟨.array w.nextId elements, w.withObject, rfl, rfl, fun hlt => ?_, ?_⟩
    · exact Dyadic.toInt?_eq_some_iff.1 (toInt?_nearest hlt)
    · intro x mark i v place there
      rw [call_element place there]
      rfl

/-- Half a place is none, and minus zero names the first one. -/
theorem fails_exactly_when_refused_by_array :
    let letters := [Value.string "a", .string "b"]
    (∃ cause, element.call 1 [.array 1 letters, .number 0.5 0] .empty = .error (.fault cause) .empty ∧
      cause.kind = .runtime ∧ cause.message = "Index 0.5 out of range for array of length 2") ∧
    (∃ v w', array.call 1 letters .empty = .ok v w' ∧ Answers array letters v ∧
      OnlyPrints 1 array v .empty w') ∧
    ∃ made w', array.call 1 letters .empty = .ok made w' ∧
      element.call 1 [made, .number (-0) 0] w' = .ok (.string "a") w' := by
  intro letters
  obtain ⟨hrefused, hothers, hmade⟩ := fails_exactly_when_refused
  refine ⟨?_, ?_, ?_⟩
  · have hindex : index? letters.length 0.5 = none := by decide
    have htext : "Index " ++ numberText 0.5 ++ " out of range for array of length " ++
        toString letters.length = "Index 0.5 out of range for array of length 2" := by decide +kernel
    exact hrefused 1 element _ .empty _ _ (htext ▸ .index (index?_eq_none_iff.1 hindex))
  · refine (hothers 1 array letters .empty (not_refuses_array letters)).resolve_left ?_
    rintro ⟨⟨h | h, -⟩, -⟩ <;> cases h
  · obtain ⟨made, w', hcall, -, -, helement⟩ := hmade 1 letters .empty
    have hzero : Dyadic.ofFloat (-0) = .finite true 0 (-1074) := by decide
    have place : (Dyadic.ofFloat (-0)).rational? = some ((0 : Nat) : ℚ) := by
      simp [hzero, Dyadic.rational?, Dyadic.signedMantissa]
    exact ⟨made, w', hcall, helement (-0) 0 0 _ place rfl⟩

/-- A native function of one operand does not ask for "1 arguments". -/
theorem wrong_count_of_one_is_singular :
    ¬ ∀ depth op args w n, arity op = some n → args.length ≠ n →
      ∃ cause, op.call depth args w = .error (.fault cause) w ∧
        cause.message = op.name ++ " expects " ++ toString n ++ " arguments, got " ++
          toString args.length := by
  intro h
  obtain ⟨cause, hcall, hmessage⟩ := h 1 (print true) [] .empty 1 rfl (by decide)
  obtain rfl : cause = .nativeArity (print true) 1 0 := by
    cases hcall
    rfl
  exact absurd hmessage (by decide)

end Native

end CallScript
