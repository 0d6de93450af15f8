import VirtualShell.Session.Update

/-!
# Making and writing

Everything that can be refused is looked at before the tree is changed.
-/
namespace VirtualShell.Session
set_option autoImplicit false

/-- Makes a file. One that exists already gets a new time of change only. -/
def createFile (path : PathArg) (content : String) : Update String := do
  let s ← Update.session
  let target ← s.requireWritePath path
  let parent ← s.reachDirectory (Path.parentOf target) path
  let name := Path.baseName target
  match parent.child? name with
  | some (.dir ..) => refuse (.obstructed (.reach path.text) .isADirectory)
  | some (.file i c) =>
    if (← s.subject.may .write (.file i c)) || s.subject.owns i then
      Update.write (·.modifyAt target (Node.touch s.now))
      return target
    else refuse (.obstructed (.touch path.text) .denied)
  | none =>
    s.requireModifiable parent (.touch path.text)
    Update.write (·.addEntry (Path.parentOf target) (s.newFile name content))
    return target

inductive DirectoryPlan where
  | present
  /-- The directory `node` at `place` lacks the first of `parts`. -/
  | missing (place : List String) (node : Node) (parts : List String)

/-- Goes down a chain of directories as far as it exists; `place` is the way walked so far. -/
def planDirectories (s : Subject) (path : String) (parents : Bool) (place : List String) (n : Node) :
    List String → Except Fault DirectoryPlan
  | [] => .ok .present
  | p :: ps => do
    if ← s.may .execute n then
      match n.child? p with
      | none =>
        if !ps.isEmpty && !parents then refuse (.obstructed (.makeDirectory path) .missing)
        else return .missing place n (p :: ps)
      | some (.file ..) =>
        refuse (.obstructed (.makeDirectory path) (if ps.isEmpty then .occupied else .notADirectory))
      | some (.dir i es) =>
        if ps.isEmpty && !parents then refuse (.obstructed (.makeDirectory path) .occupied)
        else planDirectories s path parents (place ++ [p]) (.dir i es) ps
    else refuse (.obstructed (.makeDirectory path) .denied)

def newChain (s : Session) (name : String) : List String → Node
  | [] => s.newDirectory name []
  | p :: ps => s.newDirectory name [newChain s p ps]

def createDirectory (path : PathArg) (parents : Bool) : Update String := do
  let s ← Update.session
  let target ← s.requireWritePath path
  match ← planDirectories s.subject path.text parents [] s.root (Path.split target) with
  | .present => return target
  | .missing _ _ [] => return target
  | .missing place n (p :: ps) =>
    s.requireModifiable n (.makeDirectory path.text)
    Update.write (·.addEntry (Path.ofParts place) (s.newChain p ps))
    return target

def writeFile (path : PathArg) (content : String) (append : Bool) : Update String := do
  let s ← Update.session
  let target ← s.requireWritePath path
  let parent ← s.reachDirectory (Path.parentOf target) path
  let name := Path.baseName target
  match parent.child? name with
  | some (.dir ..) => refuse (.obstructed (.reach path.text) .isADirectory)
  | some (.file i c) =>
    if ← s.subject.may .write (.file i c) then
      let written := if append then c ++ content else content
      Update.write (·.overwrite target written)
      return target
    else refuse (.obstructed (.reach path.text) .denied)
  | none =>
    s.requireModifiable parent (.reach path.text)
    Update.write (·.addEntry (Path.parentOf target) (s.newFile name content))
    return target

end VirtualShell.Session
