import VirtualShell.Pattern.Syntax

/-!
# Where a search begins

The options that a group switches on hold inside of it, but the first character of a match has to be in
the first set under the options of the whole pattern as well.
-/
namespace VirtualShell.Pattern
set_option autoImplicit false

def isNothing : Pattern → Bool
  | .empty => true
  | .group none p => isNothing p
  | .seq p q => isNothing p && isNothing q
  | _ => false

def firstSet? : Pattern → Option CharSet
  | .char set => some set
  | .group _ p => firstSet? p
  | .seq p q => if isNothing p then firstSet? q else firstSet? p
  | _ => none

/-- The set under the other alphabet, if that makes a difference to it. -/
def CharSet.withAlphabet? (set : CharSet) (ascii : Bool) : Option CharSet :=
  let isClass : SetItem → Bool
    | .ofClass .. => true
    | _ => false
  if set.options.ascii != ascii && set.items.any isClass &&
      (!set.options.ignoreCase || set.items.all isClass) then
    some { set with options := { Options.none with ascii := ascii } }
  else none

def guarded (ascii : Bool) (p : Pattern) : Pattern :=
  match (firstSet? p).bind (·.withAlphabet? ascii) with
  | some set => .seq (.ahead (.char set) false) p
  | none => p

end VirtualShell.Pattern
