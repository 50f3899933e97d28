import CallScript.Term
import CallScript.Value.Equality

/-!
# Equality of expressions

Two trees are equal if they have the same shape, the same words and equal literals of the same type.
An argument is equal to itself even if a literal in it is NaN; elsewhere such a literal makes a tree
unequal to every tree.
-/

namespace CallScript.Expr

mutual

/-- Equality of trees. `shared` holds inside arguments, where the same object is equal to itself. -/
def equals (shared : Bool) : Expr → Expr → Bool
  | literal a, literal b =>
    (shared && Value.sameObject a b) || Value.equals? a.nesting a b == some true
  | word a, word b => a == b
  | apply f as, apply g bs => equals shared f g && equalsAll as bs
  | foreign q p, foreign r s => q == r && p == s
  | _, _ => false

def equalsAll : List Expr → List Expr → Bool
  | [], [] => true
  | a :: as, b :: bs => equals true a b && equalsAll as bs
  | _, _ => false

end

def distinct (es : List Expr) : List Expr :=
  es.foldl (fun kept e => if kept.any (equals false · e) then kept else kept ++ [e]) []

end CallScript.Expr
