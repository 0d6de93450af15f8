import VirtualShell.Calendar
import VirtualShell.ErrorKind
import VirtualShell.Snapshot.Defect

/-!
# Refusals

An operation that is refused says what it attempted and what stood in the way. Paths are named as
they were typed. A `Crash` is a fault that no operation is prepared for.
-/
namespace VirtualShell
set_option autoImplicit false

inductive Attempt where
  | reach (path : String)
  | reachInto (path : String)
  | list (path : String)
  | touch (path : String)
  | makeDirectory (path : String)
  | remove (path : String)
  | removeDirectory (path : String)
  | move (source : String)
  | moveTo (source target : String)
  | read (path : String)
  | overwrite (path : String)
  | overwriteWith (path source : String)
  | createFile (path : String)
  | create (path : String)
  | changeMode (path : String)
  | changeOwner (path : String)
  deriving DecidableEq, Repr

def Attempt.text : Attempt → String
  | reach path => path
  | reachInto path => "'" ++ path ++ "'"
  | list path => "cannot open directory '" ++ path ++ "'"
  | touch path => "cannot touch '" ++ path ++ "'"
  | makeDirectory path => "cannot create directory '" ++ path ++ "'"
  | remove path => "cannot remove '" ++ path ++ "'"
  | removeDirectory path => "failed to remove '" ++ path ++ "'"
  | move source => "cannot move '" ++ source ++ "'"
  | moveTo source target => "cannot move '" ++ source ++ "' to '" ++ target ++ "'"
  | read path => "cannot open '" ++ path ++ "' for reading"
  | overwrite path => "cannot overwrite '" ++ path ++ "'"
  | overwriteWith path source => "cannot overwrite '" ++ path ++ "' with '" ++ source ++ "'"
  | createFile path => "cannot create regular file '" ++ path ++ "'"
  | create path => "cannot create '" ++ path ++ "'"
  | changeMode path => "changing permissions of '" ++ path ++ "'"
  | changeOwner path => "changing ownership of '" ++ path ++ "'"

inductive Obstacle where
  | denied
  | notADirectory
  | missing
  | isADirectory
  | occupied
  | notPermitted
  | invalidPath
  | notEmpty
  deriving DecidableEq, Repr

def Obstacle.text : Obstacle → String
  | denied => "Permission denied"
  | notADirectory => "Not a directory"
  | missing => "No such file or directory"
  | isADirectory => "Is a directory"
  | occupied => "File exists"
  | notPermitted => "Operation not permitted"
  | invalidPath => "Invalid path"
  | notEmpty => "Directory not empty"

def Obstacle.kind : Obstacle → ErrorKind
  | denied => .permissionDenied
  | notADirectory => .notADirectory
  | missing => .notFound
  | isADirectory => .isADirectory
  | occupied => .conflict
  | notPermitted => .notPermitted
  | invalidPath => .invalidPath
  | notEmpty => .conflict

inductive Refusal where
  | obstructed (attempt : Attempt) (obstacle : Obstacle)
  | moveIntoItself (source target : String)
  | copyIntoItself (source target : String)
  | sameFile (source target : String)
  | directoryOmitted (source : String)
  | invalidMode (expression : String)
  | emptyOwnerSpec (spec : String)
  | unknownOwner (spec : String)
  | unknownOwnerGroup (spec : String)
  | adminOnly (command : String)
  | badUserName (name : String)
  | badGroupName (name : String)
  | userExists (name : String)
  | groupExists (name : String)
  | noSuchUser (name : String)
  | noSuchGroup (name : String)
  | noSuchLogin (name : String)
  | wrongPassword
  | loggedIn (name : String)
  | protectedHome (home : String)
  | homeInUse (home : String)
  | badSnapshot (defect : SnapshotDefect)
  deriving DecidableEq, Repr

namespace Refusal

def message : Refusal → String
  | obstructed attempt obstacle => attempt.text ++ ": " ++ obstacle.text
  | moveIntoItself source target =>
    "Cannot move a directory into itself: '" ++ source ++ "' -> '" ++ target ++ "'"
  | copyIntoItself source target =>
    "cannot copy a directory, '" ++ source ++ "', into itself, '" ++ target ++ "'"
  | sameFile source target => "'" ++ source ++ "' and '" ++ target ++ "' are the same file"
  | directoryOmitted source => "-r not specified; omitting directory '" ++ source ++ "'"
  | invalidMode expression => "invalid mode: '" ++ expression ++ "'"
  | emptyOwnerSpec spec => "invalid spec: '" ++ spec ++ "'"
  | unknownOwner spec => "invalid user: '" ++ spec ++ "'"
  | unknownOwnerGroup spec => "invalid group: '" ++ spec ++ "'"
  | adminOnly command => command ++ ": permission denied (try sudo)"
  | badUserName name => "invalid user name '" ++ name ++ "'"
  | badGroupName name => ("invalid user name '" ++ name ++ "'").replace "user" "group"
  | userExists name => "user '" ++ name ++ "' already exists"
  | groupExists name => "group '" ++ name ++ "' already exists"
  | noSuchUser name => "user '" ++ name ++ "' does not exist"
  | noSuchGroup name => "group '" ++ name ++ "' does not exist"
  | noSuchLogin name => "user " ++ name ++ " does not exist"
  | wrongPassword => "Authentication failure"
  | loggedIn name => "user " ++ name ++ " is currently logged in"
  | protectedHome home => "refusing to remove home directory '" ++ home ++ "'"
  | homeInUse home => "cannot remove '" ++ home ++ "': directory is in use"
  | badSnapshot defect => defect.message

def kind : Refusal → ErrorKind
  | obstructed _ obstacle => obstacle.kind
  | moveIntoItself .. | copyIntoItself .. | sameFile .. => .conflict
  | directoryOmitted _ => .isADirectory
  | invalidMode _ => .invalidMode
  | emptyOwnerSpec _ | unknownOwner _ | unknownOwnerGroup _ => .invalidArgument
  | adminOnly _ | wrongPassword => .permissionDenied
  | badUserName _ | badGroupName _ => .invalidArgument
  | userExists _ | groupExists _ | loggedIn _ | homeInUse _ => .conflict
  | noSuchUser _ | noSuchGroup _ | noSuchLogin _ => .notFound
  | protectedHome _ => .notPermitted
  | badSnapshot _ => .invalidSnapshot

end Refusal

/-- A fault outside of what an operation refuses. -/
inductive Crash where
  /-- A permission text is too short to hold the bit that is asked for. -/
  | shortPermissions
  /-- A permission text is too short to hold the bit that is to be set. -/
  | shortMode
  /-- An elevated block ends, but a restore has forgotten its beginning. -/
  | noElevation
  /-- A directory has no entry of that name to take out. -/
  | noEntry (name : String)
  /-- A digit of a mode is no number. -/
  | notANumber (text : String)
  | noDate (failure : Calendar.Failure)
  /-- An age that is no number has no whole part. -/
  | ageNotANumber
  | ageInfinite
  /-- A number of repetitions in a search pattern is beyond all bounds. -/
  | repeatTooLarge
  /-- The letters of a search pattern are to be ASCII alone and of all scripts at once. -/
  | mixedAlphabets
  /-- A move or a copy has no destination. -/
  | noDestination
  deriving DecidableEq, Repr

inductive Fault where
  | refused (refusal : Refusal)
  | crashed (crash : Crash)
  deriving DecidableEq, Repr

/-- A refusal ends a computation that may also crash. -/
def refuse {α : Type} (refusal : Refusal) : Except Fault α := .error (.refused refusal)

def crash {α : Type} (crash : Crash) : Except Fault α := .error (.crashed crash)

end VirtualShell
