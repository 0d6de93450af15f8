import VirtualShell.Session.Update

/-! # Looking at the tree -/
namespace VirtualShell.Session
set_option autoImplicit false

def stat (s : Session) (path : PathArg) : Except Fault Node := s.reach (s.resolve path) path

def list (s : Session) (path : PathArg) (hidden : Bool) : Except Fault (List Node) := do
  let n ← s.reachDirectory (s.resolve path) path
  if ← s.subject.mayAll n [.read, .execute] then
    return n.entries.filter fun e => hidden || e.name.toList.head? != some '.'
  else refuse (.obstructed (.list path.text) .denied)

/-- Where to go; without a path, home. -/
def orHome (path : PathArg) : PathArg :=
  match path with
  | some "" | none => some "~"
  | some typed => some typed

def changeDirectory (path : PathArg) : Update String := do
  let s ← Update.session
  let target := s.resolve (orHome path)
  let n ← s.reachDirectory target path
  if ← s.subject.may .execute n then
    Update.write fun s => { s with cwd := target }
    return target
  else refuse (.obstructed (.reach path.text) .denied)

def readFile (s : Session) (path : PathArg) : Except Fault String := do
  let n ← s.reach (s.resolve path) path
  match n with
  | .dir .. => refuse (.obstructed (.reach path.text) .isADirectory)
  | .file _ content =>
    if ← s.subject.may .read n then return content
    else refuse (.obstructed (.reach path.text) .denied)

end VirtualShell.Session
