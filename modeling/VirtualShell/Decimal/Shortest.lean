import VirtualShell.Decimal.Powers

/-!
# Shortest decimals

The text of a binary fraction has the fewest digits that read back as the same fraction, and of
those the nearest. `shortest` finds the digits in exact arithmetic, `floatText` lays them out:
without an exponent from `0.0001` up to below `10^16`, and with one outside.
-/
namespace VirtualShell.Decimal
set_option autoImplicit false

/-- The reals that read back as one binary fraction: those between `low` and `high` over `den`. -/
structure Interval where
  low : Nat
  value : Nat
  high : Nat
  den : Nat
  closed : Bool

/-- The interval around `mantissa * 2 ^ (exponent - 1074)`; below a power of two it is half as wide. -/
def Interval.around (mantissa exponent : Nat) (powerOfTwo : Bool) : Interval :=
  let scale := if exponent ≥ 1076 then twoTo (exponent - 1076) else 1
  { low := (4 * mantissa - (if powerOfTwo then 1 else 2)) * scale
    value := 4 * mantissa * scale
    high := (4 * mantissa + 2) * scale
    den := if exponent ≥ 1076 then 1 else twoTo (1076 - exponent)
    closed := mantissa % 2 == 0 }

def magnitudeFrom (num den : Nat) : Nat → Int → Int
  | 0, e => e
  | fuel + 1, e =>
    let below := if e ≥ 0 then num < den * tenTo e.toNat else num * tenTo (-e).toNat < den
    if below then e else magnitudeFrom num den fuel (e + 1)

def Interval.pointOn? (i : Interval) (exponent : Int) : Option Nat :=
  let up := if exponent < 0 then tenTo (-exponent).toNat else 1
  let unit := i.den * if exponent < 0 then 1 else tenTo exponent.toNat
  let inside (n : Nat) : Bool :=
    if i.closed then i.low * up ≤ n * unit && n * unit ≤ i.high * up
    else i.low * up < n * unit && n * unit < i.high * up
  let floor := i.value * up / unit
  match inside floor, inside (floor + 1) with
  | true, true =>
    let twice := 2 * (i.value * up - floor * unit)
    some (if twice < unit || (twice == unit && floor % 2 == 0) then floor else floor + 1)
  | true, false => some floor
  | false, true => some (floor + 1)
  | false, false => none

/-- Tries one digit more each time, up to the seventeen that always suffice. -/
def Interval.shortestFrom (i : Interval) (magnitude : Int) : Nat → Nat → Nat × Int
  | 0, _ => (0, 0)
  | fuel + 1, digits =>
    match i.pointOn? (magnitude - digits) with
    | some n => (n, magnitude - digits)
    | none => i.shortestFrom magnitude fuel (digits + 1)

def stripZeros : Nat → Nat → Int → Nat × Int
  | 0, n, e => (n, e)
  | fuel + 1, n, e => if n % 10 == 0 && n != 0 then stripZeros fuel (n / 10) (e + 1) else (n, e)

def shortest (biased fraction : Nat) : Nat × Int :=
  let i :=
    if biased == 0 then Interval.around fraction 0 false
    else Interval.around (twoTo 52 + fraction) (biased - 1) (fraction == 0 && biased > 1)
  let magnitude := magnitudeFrom i.value i.den 700 (-330)
  let (n, e) := i.shortestFrom magnitude 17 1
  stripZeros 20 n e

def layOut (digits : Nat) (exponent : Int) : String :=
  let text := (Nat.toDigits 10 digits)
  let point : Int := text.length + exponent
  if -4 < point && point ≤ 16 then
    if point ≤ 0 then
      "0." ++ String.ofList (List.replicate (-point).toNat '0' ++ text)
    else if text.length ≤ point.toNat then
      String.ofList (text ++ List.replicate (point.toNat - text.length) '0') ++ ".0"
    else
      String.ofList (text.take point.toNat) ++ "." ++ String.ofList (text.drop point.toNat)
  else
    let power := point - 1
    let places := Nat.toDigits 10 power.natAbs
    let lead := String.ofList (text.take 1)
    let rest := if text.length > 1 then "." ++ String.ofList (text.drop 1) else ""
    lead ++ rest ++ (if power < 0 then "e-" else "e+") ++
      (if places.length < 2 then "0" else "") ++ String.ofList places

end VirtualShell.Decimal

namespace VirtualShell
set_option autoImplicit false

structure FloatNames where
  notANumber : String
  infinity : String

def floatTextWith (names : FloatNames) (x : Float) : String :=
  let bits := x.toBits.toNat
  let biased := bits / twoTo 52 % twoTo 11
  let fraction := bits % twoTo 52
  let sign := if bits / twoTo 63 == 1 then "-" else ""
  if biased == 2047 then
    if fraction == 0 then sign ++ names.infinity else names.notANumber
  else if biased == 0 && fraction == 0 then sign ++ "0.0"
  else
    let (digits, exponent) := Decimal.shortest biased fraction
    sign ++ Decimal.layOut digits exponent

def floatText (x : Float) : String := floatTextWith ⟨"nan", "inf"⟩ x

end VirtualShell
