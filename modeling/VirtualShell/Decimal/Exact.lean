import VirtualShell.Decimal.Powers

/-!
# The exact value of a binary fraction

`Exact.ofFloat` reads a value off the bits, so that comparing with a whole number and rounding down
are done without any error.
-/
namespace VirtualShell
set_option autoImplicit false

inductive Exact where
  | notANumber
  | infinite (negative : Bool)
  /-- The value `num / 2 ^ power`. -/
  | finite (num : Int) (power : Nat)
  deriving DecidableEq, Repr

namespace Exact

def ofBits (bits : Nat) : Exact :=
  let biased : Nat := bits / twoTo 52 % twoTo 11
  let fraction : Nat := bits % twoTo 52
  let negative := bits / twoTo 63 == 1
  if biased == 2047 then if fraction == 0 then .infinite negative else .notANumber
  else
    let mantissa : Nat := if biased == 0 then fraction else twoTo 52 + fraction
    let exponent : Nat := if biased == 0 then 1 else biased
    let (num, power) : Nat × Nat :=
      if exponent ≥ 1075 then (mantissa * twoTo (exponent - 1075), 0) else (mantissa, 1075 - exponent)
    .finite (if negative then -(num : Int) else num) power

def ofFloat (x : Float) : Exact := ofBits x.toBits.toNat

def above (x : Exact) (n : Int) : Bool :=
  match x with
  | .notANumber => false
  | .infinite negative => !negative
  | .finite num power => n * twoTo power < num

def below (x : Exact) (n : Int) : Bool :=
  match x with
  | .notANumber => false
  | .infinite negative => negative
  | .finite num power => num < n * twoTo power

def floor? (x : Exact) : Option Int :=
  match x with
  | .finite num power => some (num / twoTo power)
  | _ => none

def truncate? (x : Exact) : Option Int :=
  match x with
  | .finite num power => some (num.tdiv (twoTo power))
  | _ => none

def isWhole (x : Exact) : Bool :=
  match x with
  | .finite num power => num % twoTo power == 0
  | _ => false

end Exact

end VirtualShell
