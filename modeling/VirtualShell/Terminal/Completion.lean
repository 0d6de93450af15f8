import VirtualShell.Session.Inspect
import VirtualShell.Shell.Utility

/-!
# Completing words

The last word of a line is completed: the first word to the name of a command, any other to a path.
-/
namespace VirtualShell
set_option autoImplicit false

structure Completion where
  /-- What the word becomes. -/
  completed : Option String
  /-- What it could become, when there are several ways. -/
  options : List String
  deriving DecidableEq, Repr

namespace Completion

def none : Completion := ⟨.none, []⟩

def commonBeginning : List Char → List Char → List Char
  | c :: cs, d :: ds => if c == d then c :: commonBeginning cs ds else []
  | _, _ => []

def commonBeginnings : List (List Char) → List Char
  | [] => []
  | [cs] => cs
  | cs :: rest => commonBeginning cs (commonBeginnings rest)

def choose (base start : List Char) (names : List (String × String)) (following : String) : Completion :=
  match names.filter fun n => start.isPrefixOf n.1.toList with
  | [] => none
  | [(name, mark)] =>
    ⟨some (String.ofList base ++ name ++ (if mark == "" then following else mark)), []⟩
  | found =>
    let common := commonBeginnings (found.map fun n => n.1.toList)
    ⟨if common == start then .none else some (String.ofList (base ++ common)), found.map fun n => n.1 ++ n.2⟩

def command (start : List Char) : Completion := choose [] start (Utility.names.map (·, "")) " "

/-- The directory, the beginning that stays, and the part of a name of a path that is being typed. -/
def splitWord (word : List Char) : String × List Char × List Char :=
  if word.contains '/' then
    let start := (word.reverse.takeWhile (· != '/')).reverse
    let base := word.take (word.length - start.length)
    let directory := base.dropLast
    (if directory.isEmpty then "/" else String.ofList directory, base, start)
  else (".", [], word)

/-- Completes a path. A directory that cannot be listed offers nothing. -/
def path (s : Session) (word : List Char) : Except Fault Completion :=
  let (directory, base, start) := splitWord word
  match s.list (some directory) true with
  | .ok entries => .ok (choose base start (entries.map fun n => (n.name, if n.isDir then "/" else "")) " ")
  | .error (.refused _) => .ok none
  | .error (.crashed c) => crash c

def ofLine (s : Session) (line : String) : Except Fault Completion :=
  match line.toList.splitOn ' ' with
  | [] => .ok (command [])
  | [word] => .ok (command word)
  | words => path s (words.getLast?.getD [])

def candidates (c : Completion) (word : String) : List String :=
  match c.completed with
  | some text => if text == "" then offered else [text]
  | .none => offered
where
  /-- The options behind the directory that is typed already. -/
  offered : List String :=
    let cs := word.toList
    let base := String.ofList (cs.take (cs.length - (cs.reverse.takeWhile (· != '/')).length))
    c.options.map (base ++ ·)

end Completion

end VirtualShell
