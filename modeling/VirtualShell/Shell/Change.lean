import VirtualShell.Session.Attributes
import VirtualShell.Session.Create
import VirtualShell.Session.Inspect
import VirtualShell.Session.Remove
import VirtualShell.Session.Transfer
import VirtualShell.Shell.Act
import VirtualShell.Tree.Listing

/-!
# Changing the tree

Each operand is done in turn; a complaint about one does not keep the others from being done.
-/
namespace VirtualShell.Change
set_option autoImplicit false

def recursiveFlags : List String := ["r", "R", "recursive"]

def touch (c : Call) : Act Reply :=
  if c.args.isEmpty then return .badArgument "touch: missing file operand"
  else
    Act.perform c.args (fun path => Session.createFile (some path) "")
      fun path r => r.problemWith "touch" "cannot touch" path

def mkdir (c : Call) : Act Reply :=
  if c.args.isEmpty then return .badArgument "mkdir: missing operand"
  else
    Act.perform c.args (fun path => Session.createDirectory (some path) (c.isOn ["p", "parents"]))
      fun _ r => r.problem "mkdir"

def rm (c : Call) : Act Reply :=
  let force := c.isOn ["f", "force"]
  if c.args.isEmpty then return if force then .silent else .badArgument "rm: missing operand"
  else do
    let problems ← Act.forOperands c.args fun path => do
      match ← Act.attempt (Session.remove (some path) (c.isOn recursiveFlags)) with
      | .ok _ => return []
      | .error r =>
        return if force && r.kind == .notFound then [] else [r.problemWith "rm" "cannot remove" path]
    return .ofProblems problems

def rmdir (c : Call) : Act Reply :=
  if c.args.isEmpty then return .badArgument "rmdir: missing operand"
  else
    Act.perform c.args (fun path => Session.removeDirectory (some path))
      fun path r => r.problemWith "rmdir" "failed to remove" path

/-- Several sources are moved or copied into a directory only. -/
def isTarget (s : Session) (dest : String) : Except Fault Bool :=
  match s.stat (some dest) with
  | .ok n => .ok n.isDir
  | .error (.refused _) => .ok false
  | .error (.crashed c) => crash c

def transfer (command : String) (operation : String → String → Update String) (c : Call) : Act Reply :=
  match c.args with
  | [] => return .badArgument (command ++ ": missing file operand")
  | [source] => return .badArgument (command ++ ": missing destination file operand after '" ++ source ++ "'")
  | first :: second :: rest => do
    let sources := (first :: second :: rest).dropLast
    let dest := (first :: second :: rest).getLast?.getD ""
    let ready ← if rest.isEmpty then pure (.ok true) else Act.inspect (isTarget · dest)
    match ready with
    | .ok true =>
      Act.perform sources (fun source => operation source dest)
        fun source r => r.problemWith command "cannot stat" source
    | _ => return .error (command ++ ": target '" ++ dest ++ "' is not a directory") .notADirectory

def mv : Call → Act Reply := transfer "mv" fun source dest => Session.move (some source) (some dest)

def cp (c : Call) : Act Reply :=
  transfer "cp" (fun source dest => Session.copy (some source) (some dest) (c.isOn recursiveFlags)) c

def stat (c : Call) : Act Reply :=
  if c.args.isEmpty then return .badArgument "stat: missing operand"
  else do
    let (lines, problems) ← Act.gather c.args fun path => do
      match ← Act.inspect fun s => do (← s.stat (some path)).status path with
      | .ok text => return ([text], [])
      | .error r => return ([], [r.problemWith "stat" "cannot stat" path])
    return .ofLines lines problems

/-- Changes the mode of each path; the first complaint about the mode itself ends this. -/
def changeModes (mode : String) : List String → Act (List Problem)
  | [] => return []
  | path :: rest => do
    match ← Act.attempt (Session.changeMode (some path) mode) with
    | .ok _ => changeModes mode rest
    | .error r =>
      let p := r.problemWith "chmod" "cannot access" path
      if r.kind == .invalidMode then return [p]
      else
        let more ← changeModes mode rest
        return p :: more

/-- Takes its words as they were typed, because a mode may look like a flag. -/
def chmod (c : Call) : Act Reply :=
  match c.words with
  | mode :: path :: rest => do
    let problems ← changeModes mode (path :: rest)
    return .ofProblems problems
  | _ => return .badArgument "chmod: missing operand"

def chown (c : Call) : Act Reply :=
  match c.args with
  | spec :: path :: rest =>
    Act.perform (path :: rest) (fun path => Session.changeOwner (some path) spec (c.isOn ["R", "recursive"]))
      fun path r => r.problemWith "chown" "cannot access" path
  | _ => return .badArgument "chown: missing operand"

end VirtualShell.Change
