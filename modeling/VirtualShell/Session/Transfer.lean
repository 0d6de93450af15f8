import VirtualShell.Session.Update

/-!
# Moving and copying

The destination of both is a new name in a directory: its last part, or the name of the source
when it is a directory already.
-/
namespace VirtualShell.Session
set_option autoImplicit false

def destination (s : Session) (source : Node) (dest : PathArg) : Except Fault (String × String) :=
  let full := s.resolve dest
  match dest with
  | none => crash .noDestination
  | some typed =>
    if typed.toList.getLast? == some '/' && !s.isDirectory full then
      refuse (.obstructed (.reachInto typed) .notADirectory)
    else if s.isDirectory full then .ok (full, source.name)
    else .ok (Path.parentOf full, Path.baseName full)

/-- Whether an entry has the name that only a file may take the place of, or none. -/
def isOccupied (target : Node) (name : String) (n : Node) : Bool :=
  match target.child? name with
  | some e => e.isDir || n.isDir
  | none => false

/-- A session inside of a node that was moved goes with it. -/
def follow (s : Session) (source final : String) : Session :=
  if Path.isWithin s.cwd source then
    { s with cwd := final ++ String.ofList (s.cwd.toList.drop source.length) }
  else s

def move (source dest : PathArg) : Update String := do
  let s ← Update.session
  let src := s.resolve source
  if src == "/" then refuse (.obstructed (.move source.text) .notPermitted)
  else
    let n ← s.reach src source
    if Path.isWithin (s.resolve dest) src then refuse (.moveIntoItself source.text dest.text)
    else
      let (directory, name) ← s.destination n dest
      let final := Path.join directory name
      if final == src then return src
      else if Path.isWithin final src then refuse (.moveIntoItself source.text dest.text)
      else if Path.hasUnsafe name then refuse (.obstructed (.reach dest.text) .invalidPath)
      else
        let parent ← s.parentNode src
        let target ← s.reachDirectory directory dest
        s.requireModifiable parent (.move source.text)
        s.requireModifiable target (.moveTo source.text dest.text)
        if isOccupied target name n then
          refuse (.obstructed (.overwriteWith final source.text) .occupied)
        else if (parent.child? n.name).isNone then crash (.noEntry n.name)
        else
          Update.write (·.removeEntry (Path.parentOf src) n.name)
          Update.write (·.addEntry directory (n.rename name))
          Update.write (·.follow src final)
          return final

/-- Whoever copies a subtree must be able to read all of it, and to search its directories. -/
def requireReadable (s : Session) : List (String × Node) → Except Fault Unit
  | [] => .ok ()
  | (path, n) :: rest => do
    if ← s.subject.mayAll n (if n.isDir then [.read, .execute] else [.read]) then requireReadable s rest
    else refuse (.obstructed (.read path) .denied)

def cloned (s : Session) (n : Node) (name : String) : Node :=
  (n.mapAll fun i => { i with owner := s.username, group := s.primaryGroup, modified := s.now }).rename name

def copy (source dest : PathArg) (recursive : Bool) : Update String := do
  let s ← Update.session
  let src := s.resolve source
  let n ← s.reach src source
  if n.isDir && !recursive then refuse (.directoryOmitted source.text)
  else
    s.requireReadable (n.walk src)
    let (directory, name) ← s.destination n dest
    let final := Path.join directory name
    if n.isDir && Path.isWithin final src then refuse (.copyIntoItself source.text dest.text)
    else if final == src then refuse (.sameFile source.text dest.text)
    else if Path.hasUnsafe name then refuse (.obstructed (.reach dest.text) .invalidPath)
    else
      let target ← s.reachDirectory directory dest
      match target.child? name with
      | some e =>
        if e.isDir || n.isDir then refuse (.obstructed (.overwrite final) .occupied)
        else if ← s.subject.may .write e then
          Update.write (·.overwrite final n.content)
          return final
        else refuse (.obstructed (.createFile dest.text) .denied)
      | none =>
        s.requireModifiable target (.create dest.text)
        Update.write (·.addEntry directory (s.cloned n name))
        return final

end VirtualShell.Session
