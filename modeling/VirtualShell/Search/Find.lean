import VirtualShell.Search.Filters
import VirtualShell.Search.Trail

/-! # Finding nodes -/
namespace VirtualShell
set_option autoImplicit false

def FindFilters.select (f : FindFilters) (now : Float) : List (String × Node) → Except Fault (List String)
  | [] => .ok []
  | (path, n) :: rest => do
    let accepted ← f.accepts now n
    let found ← f.select now rest
    return if accepted then path :: found else found

def Session.find (s : Session) (start : PathArg) (f : FindFilters) : Except Fault (List String) := do
  let trail := s.walk start
  let found ← f.select s.now trail.nodes
  match trail.fault with
  | some fault => .error fault
  | none => return found

end VirtualShell
