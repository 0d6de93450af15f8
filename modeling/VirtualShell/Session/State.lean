import VirtualShell.Access.Permission

/-!
# Sessions

A session is the tree together with the accounts, the acting user, the working directory, and the
users that open elevations will return to. `reach` follows a path with the rights of the acting
user, `lookup` without a look at rights.
-/
namespace VirtualShell
set_option autoImplicit false

structure Session where
  root : Node
  accounts : Accounts
  groups : Names
  username : String
  cwd : String
  /-- The users to return to, innermost first. -/
  elevations : List String
  /-- How often the acting user was switched. -/
  switches : Nat
  /-- The time of the clock. -/
  now : Float

/-- A path as it was typed. One that is left out stands for the working directory. -/
abbrev PathArg := Option String

/-- How a complaint names a path; one that was left out is named `None`. -/
def PathArg.text (path : PathArg) : String := path.getD "None"

def PathArg.shown (path : PathArg) (full : String) : String :=
  match path with
  | some typed => if typed == "" then full else typed
  | none => full

/-- Follows names down from a node. Each directory on the way must be searchable. -/
def Subject.reach (s : Subject) (shown : String) (n : Node) : List String → Except Fault Node
  | [] => .ok n
  | p :: ps =>
    if n.isDir then do
      if ← s.may .execute n then
        match n.child? p with
        | some e => s.reach shown e ps
        | none => refuse (.obstructed (.reach shown) .missing)
      else refuse (.obstructed (.reach shown) .denied)
    else refuse (.obstructed (.reach shown) .notADirectory)

namespace Session

def account? (s : Session) : Option Account := s.accounts.find? s.username

/-- The acting user; one without an account is in no group. -/
def subject (s : Session) : Subject :=
  match s.account? with
  | some a => Subject.ofAccount a
  | none => ⟨s.username, Roster.empty⟩

def home (s : Session) : String := (s.account?.map Account.home).getD "/"

def primaryGroup (s : Session) : String := (s.account?.map Account.primaryGroup).getD s.username

def activeUsers (s : Session) : Names := Roster.ofList (s.username :: s.elevations)

def resolve (s : Session) (path : PathArg) : String := Path.resolve s.home s.cwd path

def lookup (s : Session) (path : String) : Option Node := s.root.get? (Path.split path)

def isDirectory (s : Session) (path : String) : Bool :=
  match s.lookup path with
  | some n => n.isDir
  | none => false

def reach (s : Session) (full : String) (typed : PathArg) : Except Fault Node :=
  s.subject.reach (typed.shown full) s.root (Path.split full)

def reachDirectory (s : Session) (full : String) (typed : PathArg) : Except Fault Node := do
  let n ← s.reach full typed
  if n.isDir then return n else refuse (.obstructed (.reach (typed.shown full)) .notADirectory)

def parentNode (s : Session) (path : String) : Except Fault Node :=
  match s.lookup (Path.parentOf path) with
  | some n => .ok n
  | none => crash (.noEntry (Path.baseName path))

/-- Entries are put into and taken out of directories that may be written and searched. -/
def requireModifiable (s : Session) (n : Node) (attempt : Attempt) : Except Fault Unit := do
  if ← s.subject.mayAll n [.write, .execute] then return () else refuse (.obstructed attempt .denied)

def requireWritePath (s : Session) (typed : PathArg) : Except Fault String :=
  match Path.forWriting s.home s.cwd typed with
  | some target => .ok target
  | none => refuse (.obstructed (.reach typed.text) .invalidPath)

def modifyAt (s : Session) (path : String) (f : Node → Node) : Session :=
  { s with root := s.root.modify f (Path.split path) }

def addEntry (s : Session) (directory : String) (e : Node) : Session :=
  s.modifyAt directory fun n => (n.putEntry e).touch s.now

def removeEntry (s : Session) (directory name : String) : Session :=
  s.modifyAt directory fun n => (n.dropEntry name).touch s.now

def overwrite (s : Session) (path content : String) : Session :=
  s.modifyAt path fun n => (n.setContent content).touch s.now

def newInfo (s : Session) (name permissions : String) : Info :=
  { name, permissions, owner := s.username, group := s.primaryGroup, modified := s.now }

def newFile (s : Session) (name content : String) : Node := .file (s.newInfo name "rw-r--r--") content

def newDirectory (s : Session) (name : String) (entries : List Node) : Node :=
  .dir (s.newInfo name "rwxr-xr-x") entries

end Session

end VirtualShell
