/-!
# Doubles as dyadic rationals

A double is not a number, an infinity, or a signed product `mantissa * 2 ^ exponent` with a mantissa
below `2 ^ 53`. The decoding reads the three fields of the bit pattern. Whatever is said about the
digits of a number is said about this form of it.
-/

-- powers are those of the core library, whatever else a module imports
attribute [instance (20000), default_instance (20000)] instPowNat

namespace CallScript.Decimal

/-- What a double stands for. -/
inductive Dyadic where
  | nan
  | infinite (negative : Bool)
  | finite (negative : Bool) (mantissa : Nat) (exponent : Int)
  deriving DecidableEq, Repr

namespace Dyadic

/-- Reads the fields of a bit pattern: the sign bit, eleven bits of exponent, fifty-two bits of
fraction. -/
def ofBits (bits : Nat) : Dyadic :=
  let negative := bits / 2 ^ 63 % 2 == 1
  let exponent : Nat := bits / 2 ^ 52 % 2 ^ 11
  let fraction : Nat := bits % 2 ^ 52
  if exponent = 2 ^ 11 - 1 then
    if fraction = 0 then infinite negative else nan
  else if exponent = 0 then finite negative fraction (-1074)
  else finite negative (fraction + 2 ^ 52) (exponent - 1075)

def ofFloat (x : Float) : Dyadic :=
  ofBits x.toBits.toNat

def toInt? : Dyadic → Option Int
  | finite negative mantissa (.ofNat e) =>
    let n := mantissa * 2 ^ e
    some (if negative then -n else n)
  | finite negative mantissa (.negSucc e) =>
    if mantissa % 2 ^ (e + 1) = 0 then
      let n := mantissa / 2 ^ (e + 1)
      some (if negative then -n else n)
    else none
  | _ => none

end Dyadic

end CallScript.Decimal
