import VirtualShell.Access.Mode
import VirtualShell.Calendar

/-! # How nodes are listed -/
namespace VirtualShell
set_option autoImplicit false

def padLeft (width : Nat) (s : String) : String :=
  String.ofList (List.replicate (width - s.length) ' ') ++ s

def padRight (width : Nat) (s : String) : String :=
  s ++ String.ofList (List.replicate (width - s.length) ' ')

namespace Node

def modeText (n : Node) : String := (if n.isDir then "d" else "-") ++ n.info.permissions

/-- The names of a node: its own, and for a directory those that lead up from inside of it. -/
def linkCount (n : Node) : Nat := if n.isDir then 2 + (n.entries.filter isDir).length else 1

def date (n : Node) : Except Fault Calendar.Stamp :=
  match Calendar.ofMoment n.info.modified with
  | .ok stamp => .ok stamp
  | .error failure => crash (.noDate failure)

def longLine (n : Node) (shown : String) : Except Fault String := do
  let stamp ← n.date
  return " ".intercalate
    [n.modeText, padLeft 2 (toString n.linkCount), padRight 8 n.info.owner, padRight 8 n.info.group,
      padLeft 6 (toString n.size), stamp.short, if shown == "" then n.name else shown]

def status (n : Node) (shown : String) : Except Fault String := do
  let stamp ← n.date
  let octal ← Mode.toOctal n.info.permissions
  return "\n".intercalate
    ["  File: " ++ shown,
      "  Size: " ++ padRight 10 (toString n.size) ++ " " ++ (if n.isDir then "directory" else "regular file"),
      "Access: (0" ++ octal ++ "/" ++ n.modeText ++ ")  Uid: " ++ n.info.owner ++ "  Gid: " ++ n.info.group,
      "Modify: " ++ stamp.full]

end Node

end VirtualShell
