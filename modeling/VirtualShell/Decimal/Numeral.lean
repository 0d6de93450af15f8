import VirtualShell.Text.Blank
import VirtualShell.Text.Digit

/-!
# Reading numerals

Whole numbers may carry a sign, blanks around them and single underscores between their digits, and
the digits may be of any script. Decimals are rounded to the nearest binary fraction.
-/
namespace VirtualShell.Decimal
set_option autoImplicit false

/-- The blanks around a numeral. The four separators are none. -/
def isBlank (c : Char) : Bool := Text.isBlank c && !(0x1c ≤ c.toNat && c.toNat ≤ 0x1f)

def trim (cs : List Char) : List Char := ((cs.dropWhile isBlank).reverse.dropWhile isBlank).reverse

/-- Reads digits. Only after one of them may an underscore stand, and the end. -/
def wholeFrom (value : Nat) (afterDigit : Bool) : List Char → Option Nat
  | [] => if afterDigit then some value else none
  | c :: cs =>
    if c == '_' then if afterDigit then wholeFrom value false cs else none
    else
      match Text.digitValue? c with
      | some d => wholeFrom (10 * value + d) true cs
      | none => none

def natural? (cs : List Char) : Option Nat := wholeFrom 0 false cs

def integer? : List Char → Option Int
  | '+' :: cs => (natural? cs).map Int.ofNat
  | '-' :: cs => (natural? cs).map fun n => -(n : Int)
  | cs => (natural? cs).map Int.ofNat

def digitCount (n : Nat) : Nat := (Nat.toDigits 10 n).length

/-- The binary fraction nearest to `mantissa * 10 ^ exponent`. -/
def nearestFloat (mantissa : Nat) (exponent : Int) : Float :=
  let magnitude : Int := digitCount mantissa + exponent
  if mantissa == 0 || magnitude < -400 then 0.0
  else if magnitude > 400 then Float.ofScientific 1 false 400
  else if exponent < 0 then Float.ofScientific mantissa true (-exponent).toNat
  else Float.ofScientific mantissa false exponent.toNat

end VirtualShell.Decimal

namespace VirtualShell
set_option autoImplicit false

def readInteger? (s : String) : Option Int := Decimal.integer? (Decimal.trim s.toList)

end VirtualShell
