import CallScript.Term

/-!
# Equality of values

Two values of different types are unequal; numbers are equal as doubles, strings and booleans by
content, functions if they are the same object, and arrays if they have the same length and their
elements match. Elements match if they are the same object or equal, and among elements `true` counts
as `1` and `false` as `0`. So NaN, unequal to itself, does match itself. Arrays are compared no deeper
than allowed; an element that is the same object is not looked into.
-/

namespace CallScript.Value

mutual

/-- The same object. Where the content alone decides, as for strings, every equal one is. -/
def same : Value → Value → Bool
  | number x m, number y n => x.toBits == y.toBits && m == n
  | string s, string t => s == t
  | boolean a, boolean b => a == b
  | array i xs, array j ys => i == j && sameAll xs ys
  | native f i, native g j => f == g && i == j
  | closure i .., closure j .. => i == j
  | _, _ => false

def sameAll : List Value → List Value → Bool
  | [], [] => true
  | x :: xs, y :: ys => same x y && sameAll xs ys
  | _, _ => false

end

mutual

/-- Every value is the same object as itself, NaN included. -/
theorem same_refl : ∀ v : Value, same v v = true
  | number .. => by simp [same]
  | string _ => by simp [same]
  | boolean _ => by simp [same]
  | array _ xs => by simp [same, sameAll_refl xs]
  | native .. => by simp [same]
  | closure .. => by simp [same]

theorem sameAll_refl : ∀ vs : List Value, sameAll vs vs = true
  | [] => by simp [sameAll]
  | v :: vs => by simp [sameAll, same_refl v, sameAll_refl vs]

end

/-- `same`, at the cost of one comparison for an object that is at hand twice, however large. -/
def sameObject (a b : Value) : Bool :=
  withPtrEq a b (fun _ => same a b) fun h => h ▸ same_refl a

@[simp] theorem sameObject_eq (a b : Value) : sameObject a b = same a b := rfl

def ofBool (b : Bool) : Float :=
  if b then 1 else 0

/-- Asks a question of the pairs of two lists of one length, in order, up to the first `false`. -/
def allPairs (ask : Value → Value → Option Bool) : List Value → List Value → Option Bool
  | x :: xs, y :: ys =>
    match ask x y with
    | some true => allPairs ask xs ys
    | other => other
  | _, _ => some true

/-- Equality among elements that are not the same object; nothing if it would have to look deeper
than allowed. -/
def matches? (depth : Nat) (a b : Value) : Option Bool :=
  match a, b with
  | number x _, number y _ => some (x == y)
  | number x _, boolean b => some (x == ofBool b)
  | boolean a, number y _ => some (ofBool a == y)
  | boolean a, boolean b => some (a == b)
  | string s, string t => some (s == t)
  | array _ xs, array _ ys =>
    if xs.length ≠ ys.length then some false
    else match depth with
      | 0 => none
      | depth + 1 =>
        allPairs (fun x y => if sameObject x y then some true else matches? depth x y) xs ys
  | a, b => some (same a b)

/-- Equality as programs see it. -/
def equals? (depth : Nat) (a b : Value) : Option Bool :=
  if a.kind = b.kind then matches? depth a b else some false

end CallScript.Value
