import VirtualShell.Glob
import VirtualShell.Search.Age
import VirtualShell.Text.Case
import VirtualShell.Tree.Node

/-!
# What to search for

The words of a search are places to start from and then tests with a value each. A test that is
given again replaces the one before.
-/
namespace VirtualShell
set_option autoImplicit false

structure FindFilters where
  name : Option String
  /-- A pattern for names without regard to case. -/
  anyCaseName : Option String
  kind : Option NodeKind
  days : Option AgeFilter
  minutes : Option AgeFilter
  deriving DecidableEq, Repr

inductive FindFault where
  | lateStart (word : String)
  | noValue (test : String)
  | unknownKind (value : String)
  | badAge (value : String)
  | unknownTest (word : String)
  deriving DecidableEq, Repr

def FindFault.message : FindFault → String
  | lateStart word => "paths must precede expression: '" ++ word ++ "'"
  | noValue test => "missing argument to '" ++ test ++ "'"
  | unknownKind value => "Unknown argument to -type: " ++ value
  | badAge value => "invalid argument '" ++ value ++ "'"
  | unknownTest word => "unknown predicate '" ++ word ++ "'"

namespace FindFilters

def none : FindFilters := ⟨.none, .none, .none, .none, .none⟩

def kindOf? (value : String) : Option NodeKind :=
  if value == "f" then some .file else if value == "d" then some .dir else .none

def readAge (value : String) (unit : Nat) : Except FindFault AgeFilter :=
  match AgeFilter.read? value unit with
  | some age => .ok age
  | .none => .error (.badAge value)

def put (f : FindFilters) (test value : String) : Except FindFault FindFilters :=
  if test == "-name" then .ok { f with name := some value }
  else if test == "-iname" then .ok { f with anyCaseName := some value }
  else if test == "-type" then
    match kindOf? value with
    | some kind => .ok { f with kind := some kind }
    | .none => .error (.unknownKind value)
  else if test == "-mtime" then do return { f with days := some (← readAge value AgeFilter.day) }
  else if test == "-mmin" then do return { f with minutes := some (← readAge value AgeFilter.minute) }
  else .error (.unknownTest test)

def isTest (word : String) : Bool := word.toList.head? == some '-' && word != "-"

def readFrom (starts : List String) (f : FindFilters) : List String → Except FindFault (List String × FindFilters)
  | [] => .ok (starts, f)
  | [word] =>
    if isTest word then .error (.noValue word)
    else if f == none then .ok (starts ++ [word], f)
    else .error (.lateStart word)
  | word :: value :: rest =>
    if isTest word then do
      let f ← f.put word value
      readFrom starts f rest
    else if f == none then readFrom (starts ++ [word]) f (value :: rest)
    else .error (.lateStart word)

def read (words : List String) : Except FindFault (List String × FindFilters) := readFrom [] none words

def passes {α : Type} (test : Option α) (check : α → Except Fault Bool) : Except Fault Bool :=
  match test with
  | some x => check x
  | .none => .ok true

/-- Whether a node passes all tests at the time `now`; those after a failed one are not made. -/
def accepts (f : FindFilters) (now : Float) (n : Node) : Except Fault Bool := do
  let named :=
    (f.name.all fun p => (Glob.ofText p).matchesName n.name) &&
      (f.anyCaseName.all fun p => (Glob.ofText (Text.lower p)).matchesName (Text.lower n.name)) &&
        (f.kind.all fun k => n.kind == k)
  if named then
    let age := now - n.info.modified
    if ← passes f.days (·.accepts age) then passes f.minutes (·.accepts age) else return false
  else return false

end FindFilters

end VirtualShell
