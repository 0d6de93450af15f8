import VirtualShell.Problem
import VirtualShell.Refusal

/-!
# Replies

A reply is what a command line gives back to the terminal.
-/
namespace VirtualShell
set_option autoImplicit false

structure EditorRequest where
  path : String
  content : String
  newFile : Bool
  deriving DecidableEq, Repr

structure Reply where
  output : String
  failed : Bool
  /-- Whether the output is markup. -/
  markup : Bool
  /-- Whether the session ends. -/
  exits : Bool
  kind : Option ErrorKind
  editor : Option EditorRequest
  deriving DecidableEq, Repr

namespace Reply

def ofText (output : String) : Reply := ⟨output, false, false, false, none, none⟩

def silent : Reply := ofText ""

def exit : Reply := { silent with exits := true }

def edit (request : EditorRequest) : Reply := { silent with editor := some request }

def failure (output : String) : Reply := { ofText output with failed := true }

def error (output : String) (kind : ErrorKind) : Reply := { failure output with kind := some kind }

def refused (command : String) (r : Refusal) : Reply := error (command ++ ": " ++ r.message) r.kind

def badArgument (output : String) : Reply := error output .invalidArgument

def ofLines (lines : List String) (problems : List Problem) : Reply :=
  let output := String.intercalate "\n" (lines ++ problems.map Problem.text)
  { ofText output with failed := !problems.isEmpty, kind := Problem.lastKind problems }

def ofProblems (problems : List Problem) : Reply := ofLines [] problems

end Reply

def Refusal.problem (command : String) (r : Refusal) : Problem := ⟨command ++ ": " ++ r.message, r.kind⟩

/-- A refused operation as a complaint; whatever was not found, the operand is said to be missing. -/
def Refusal.problemWith (command verb operand : String) (r : Refusal) : Problem :=
  if r.kind == .notFound then
    ⟨command ++ ": " ++ verb ++ " '" ++ operand ++ "': " ++ Obstacle.missing.text, r.kind⟩
  else r.problem command

end VirtualShell
