/-! # Kinds of failure -/
namespace VirtualShell
set_option autoImplicit false

inductive ErrorKind where
  | badLine
  | notFound
  | notADirectory
  | isADirectory
  | permissionDenied
  | notPermitted
  | blocked
  | invalidMode
  | invalidPattern
  | invalidPath
  | invalidSnapshot
  | conflict
  | invalidArgument
  deriving DecidableEq, Repr

def ErrorKind.code : ErrorKind → String
  | badLine => "syntax"
  | notFound => "not_found"
  | notADirectory => "not_a_directory"
  | isADirectory => "is_a_directory"
  | permissionDenied => "permission_denied"
  | notPermitted => "not_permitted"
  | blocked => "blocked"
  | invalidMode => "invalid_mode"
  | invalidPattern => "invalid_regex"
  | invalidPath => "invalid_path"
  | invalidSnapshot => "invalid_snapshot"
  | conflict => "conflict"
  | invalidArgument => "invalid_argument"

def ErrorKind.isDenial : ErrorKind → Bool
  | permissionDenied | notPermitted | blocked => true
  | _ => false

end VirtualShell
