import VirtualShell.Session.State

/-!
# What can be wrong with a session

Entries are looked up under their names, all through the tree. That no node hangs in two places is not looked at: of
values it cannot be said.
-/
namespace VirtualShell
set_option autoImplicit false

def Node.problems (path : String) (n : Node) : List String :=
  let children := if n.kind == .file && !n.entries.isEmpty then [path ++ ": file has children"] else []
  let names := n.entries.filterMap fun e => (n.child? e.name).bind fun found =>
    if found.name == e.name then none
    else some (Path.join path e.name ++ ": name mismatch '" ++ found.name ++ "'")
  children ++ names

def Session.problems (s : Session) : List String :=
  let nodes := (s.root.walk "/").flatMap fun visited => visited.2.problems visited.1
  nodes ++ if s.isDirectory s.cwd then [] else ["cwd " ++ s.cwd ++ " is not a directory"]

end VirtualShell
