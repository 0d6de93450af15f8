import VirtualShell.ErrorKind

/-! # Problems with single operands -/
namespace VirtualShell
set_option autoImplicit false

structure Problem where
  text : String
  kind : ErrorKind
  deriving DecidableEq, Repr

def Problem.lastKind (problems : List Problem) : Option ErrorKind := problems.getLast?.map Problem.kind

end VirtualShell
