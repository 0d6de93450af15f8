import VirtualShell.Session.Inspect
import VirtualShell.Shell.Act
import VirtualShell.Text.Markup
import VirtualShell.Tree.Listing

/-!
# Listing directories

Each operand gives a block of lines. In markup, names and lines are escaped, and the names of
directories and of programs are marked.
-/
namespace VirtualShell.Listing
set_option autoImplicit false

structure Style where
  hidden : Bool
  long : Bool
  markup : Bool
  /-- Whether each directory is headed by its name. -/
  headed : Bool

def Style.escape (style : Style) (text : String) : String := if style.markup then escapeMarkup text else text

def shownName (style : Style) (n : Node) : String :=
  if !style.markup then n.name
  else if n.isDir then markSpan "ls-dir" (escapeMarkup n.name)
  else if n.info.permissions.toList.contains 'x' then markSpan "ls-exec" (escapeMarkup n.name)
  else escapeMarkup n.name

def entryLines (style : Style) (entries : List Node) : Except Fault (List String) := do
  if style.long then
    let lines ← entries.mapM fun n => n.longLine ""
    return ("total " ++ toString (4 * entries.length)) :: lines.map style.escape
  else if entries.isEmpty then return []
  else return ["  ".intercalate (entries.map (shownName style))]

def directoryBlock (style : Style) (operand : String) (entries : List Node) : Except Fault (List String) := do
  let lines ← entryLines style entries
  let lines := if style.headed then (style.escape operand ++ ":") :: lines else lines
  return ["\n".intercalate lines]

def fileBlock (style : Style) (operand : String) (n : Node) : Except Fault (List String) := do
  let line ← if style.long then n.longLine operand else pure operand
  return [style.escape line]

def problem (style : Style) (p : Problem) : Problem := { p with text := style.escape p.text }

def listOperand (style : Style) (operand : String) (s : Session) : Except Fault (Except Problem (List String)) :=
  match s.stat (some operand) with
  | .error (.crashed c) => crash c
  | .error (.refused r) => .ok (.error (problem style (r.problemWith "ls" "cannot access" operand)))
  | .ok n =>
    if !n.isDir then .ok <$> fileBlock style operand n
    else
      match s.list (some operand) style.hidden with
      | .error (.crashed c) => crash c
      | .error (.refused r) => .ok (.error (problem style (r.problem "ls")))
      | .ok entries => .ok <$> directoryBlock style operand entries

def reply (style : Style) (blocks : List String) (problems : List Problem) : Reply :=
  let output := (if style.headed then "\n\n" else "\n").intercalate (blocks.filter (· != ""))
  if problems.isEmpty then { Reply.ofText output with markup := style.markup }
  else
    let texts := (problems.map Problem.text ++ [output]).filter (· != "")
    { Reply.failure ("\n".intercalate texts) with markup := style.markup, kind := Problem.lastKind problems }

def ls (c : Call) : Act Reply := do
  let targets := if c.args.isEmpty then ["."] else c.args
  let style : Style :=
    { hidden := c.isOn ["a", "all"], long := c.isOn ["l"], markup := c.markup, headed := targets.length > 1 }
  let (blocks, problems) ← Act.gather targets fun target => do
    match ← Act.inspect (listOperand style target) with
    | .ok (.ok blocks) => return (blocks, [])
    | .ok (.error p) => return ([], [p])
    | .error r => return ([], [r.problem "ls"])
  return reply style blocks problems

end VirtualShell.Listing
