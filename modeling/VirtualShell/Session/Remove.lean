import VirtualShell.Session.Update

/-! # Taking out of the tree -/
namespace VirtualShell.Session
set_option autoImplicit false

/-- A session inside of a node that was taken out moves to the directory above it. -/
def stepOut (s : Session) (path : String) : Session :=
  if Path.isWithin s.cwd path then { s with cwd := Path.parentOf path } else s

def detach (path : String) : Update Unit := do
  let s ← Update.session
  let parent := Path.parentOf path
  let name := Path.baseName path
  match (s.lookup parent).bind (·.child? name) with
  | none => crash (.noEntry name)
  | some _ =>
    Update.write (·.removeEntry parent name)
    Update.write (·.stepOut path)

/-- Whoever removes a subtree must have every right in all of its directories. -/
def requireRemovable (s : Session) : List (String × Node) → Except Fault Unit
  | [] => .ok ()
  | (path, n) :: rest => do
    if n.isDir then
      if ← s.subject.mayAll n Access.all then requireRemovable s rest
      else refuse (.obstructed (.remove path) .denied)
    else requireRemovable s rest

def remove (path : PathArg) (recursive : Bool) : Update String := do
  let s ← Update.session
  let target := s.resolve path
  if target == "/" then refuse (.obstructed (.remove path.text) .notPermitted)
  else
    let n ← s.reach target path
    let parent ← s.parentNode target
    if n.isDir && !recursive then refuse (.obstructed (.remove path.text) .isADirectory)
    else
      s.requireModifiable parent (.remove path.text)
      s.requireRemovable (if n.isDir then n.walk target else [])
      detach target
      return target

def removeDirectory (path : PathArg) : Update String := do
  let s ← Update.session
  let target := s.resolve path
  if target == "/" then refuse (.obstructed (.removeDirectory path.text) .notPermitted)
  else
    let n ← s.reach target path
    if !n.isDir then refuse (.obstructed (.removeDirectory path.text) .notADirectory)
    else if !n.entries.isEmpty then refuse (.obstructed (.removeDirectory path.text) .notEmpty)
    else
      let parent ← s.parentNode target
      s.requireModifiable parent (.removeDirectory path.text)
      detach target
      return target

end VirtualShell.Session
