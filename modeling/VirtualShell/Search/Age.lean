import VirtualShell.Decimal.Exact
import VirtualShell.Refusal
import VirtualShell.Text.Digit

/-!
# Ages

An age is asked for in whole units, days or minutes: more than so many, fewer, or just as many.
-/
namespace VirtualShell
set_option autoImplicit false

inductive Comparison where
  | older
  | newer
  | exact
  deriving DecidableEq, Repr

def Comparison.sign : Comparison → String
  | older => "+"
  | newer => "-"
  | exact => ""

structure AgeFilter where
  comparison : Comparison
  amount : Nat
  /-- The seconds of one unit. -/
  unit : Nat
  deriving DecidableEq, Repr

namespace AgeFilter

def day : Nat := 86400

def minute : Nat := 60

/-- The value of digits of any script; one newline may follow them. -/
def amount? (cs : List Char) : Option Nat := do
  let digits ← (if cs.getLast? == some '\n' then cs.dropLast else cs).mapM Text.digitValue?
  if digits.isEmpty then none else return digits.foldl (fun n d => 10 * n + d) 0

def read? (value : String) (unit : Nat) : Option AgeFilter :=
  match value.toList with
  | '+' :: cs => (amount? cs).map (⟨.older, ·, unit⟩)
  | '-' :: cs => (amount? cs).map (⟨.newer, ·, unit⟩)
  | cs => (amount? cs).map (⟨.exact, ·, unit⟩)

/-- Whether an age in seconds is asked for. Only an exact age is rounded down to whole units. -/
def accepts (f : AgeFilter) (seconds : Float) : Except Fault Bool :=
  let age := Exact.ofFloat (seconds / Float.ofNat f.unit)
  match f.comparison with
  | .older => .ok (age.above f.amount)
  | .newer => .ok (age.below f.amount)
  | .exact =>
    match age with
    | .notANumber => crash .ageNotANumber
    | .infinite _ => crash .ageInfinite
    | .finite num power => .ok (num / twoTo power == (f.amount : Int))

end AgeFilter

end VirtualShell
