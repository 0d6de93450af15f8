import VirtualShell.Access.Account
import VirtualShell.Refusal
import VirtualShell.Tree.Node

/-!
# Who may do what

A permission text has three triads of letters: for the owner, for the group and for all others. The
first that applies decides alone. The administrator may read and write everything, search every
directory, and run what anybody may run.
-/
namespace VirtualShell
set_option autoImplicit false

inductive Access where
  | read
  | write
  | execute
  deriving DecidableEq, Repr

namespace Access

def letter : Access → Char
  | read => 'r'
  | write => 'w'
  | execute => 'x'

def place : Access → Nat
  | read => 0
  | write => 1
  | execute => 2

def weight : Access → Nat
  | read => 4
  | write => 2
  | execute => 1

def all : List Access := [read, write, execute]

end Access

namespace Subject

def owns (s : Subject) (i : Info) : Bool := s.username == i.owner

def triad (s : Subject) (i : Info) : List Char :=
  let letters := i.permissions.toList
  if s.owns i then letters.take 3
  else if s.groups.contains i.group then (letters.drop 3).take 3
  else (letters.drop 6).take 3

def may (s : Subject) (a : Access) (n : Node) : Except Fault Bool :=
  if s.isAdmin then
    match a with
    | .execute => .ok (n.isDir || n.info.permissions.toList.contains 'x')
    | _ => .ok true
  else
    match (s.triad n.info)[a.place]? with
    | some letter => .ok (letter == a.letter)
    | none => crash .shortPermissions

/-- Whether `s` has all the accesses; those after a missing one are not looked at. -/
def mayAll (s : Subject) (n : Node) : List Access → Except Fault Bool
  | [] => .ok true
  | a :: as => do
    if ← s.may a n then s.mayAll n as else return false

/-- Modes and owners are changed by the owner or the administrator. -/
def mayChange (s : Subject) (i : Info) : Bool := s.isAdmin || s.owns i

end Subject

end VirtualShell
