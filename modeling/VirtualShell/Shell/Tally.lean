import VirtualShell.ErrorKind

/-!
# Counting

A tally is the list of the events that were counted, the latest first.
-/
namespace VirtualShell
set_option autoImplicit false

inductive Event where
  | command (name : String) (failed : Bool)
  | badLine
  | denial (kind : ErrorKind)
  | elevation (blocked : Bool)
  | restore (rejected : Bool)
  deriving DecidableEq, Repr

abbrev Tally := List Event

namespace Tally

def count (t : Tally) (e : Event) : Nat := t.countP (· == e)

def refuse (t : Tally) (kind : ErrorKind) : Tally := if kind.isDenial then .denial kind :: t else t

def denials (t : Tally) : Nat :=
  t.countP fun e =>
    match e with
    | .denial _ => true
    | _ => false

/-- How many commands were counted; each of them was timed as well. -/
def commands (t : Tally) : Nat :=
  t.countP fun e =>
    match e with
    | .command .. => true
    | _ => false

end Tally

end VirtualShell
