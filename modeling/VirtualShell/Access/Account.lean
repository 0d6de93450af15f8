import VirtualShell.Keyed

/-! # Accounts and the users that act through them -/
namespace VirtualShell
set_option autoImplicit false

def adminName : String := "root"

structure Account where
  username : String
  primaryGroup : String
  supplemental : Names
  home : String

/-- An account; without a home directory of its own it gets the usual one. -/
def Account.create (username primaryGroup : String) (supplemental : Names) (home : String) : Account :=
  { username, primaryGroup, supplemental
    home :=
      if home != "" then home
      else if username == adminName then "/root"
      else "/home/" ++ username }

def Account.groups (a : Account) : Names := a.supplemental.add a.primaryGroup

abbrev Accounts := Roster Account Account.username

structure Subject where
  username : String
  groups : Names

namespace Subject

def isAdmin (s : Subject) : Bool := s.username == adminName

def ofAccount (a : Account) : Subject := ⟨a.username, a.groups⟩

end Subject

def isNameStart (c : Char) : Bool := ('a' ≤ c && c ≤ 'z') || c == '_'

def isNameChar (c : Char) : Bool := isNameStart c || ('0' ≤ c && c ≤ '9') || c == '-'

/-- A small letter or underscore and up to thirty-one more characters; one newline may end it. -/
def isAccountName (name : String) : Bool :=
  match name.toList with
  | [] => false
  | c :: cs =>
    let rest := if cs.getLast? == some '\n' then cs.dropLast else cs
    isNameStart c && rest.length ≤ 31 && rest.all isNameChar

end VirtualShell
