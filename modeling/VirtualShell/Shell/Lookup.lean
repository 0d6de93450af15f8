import VirtualShell.Search.Find
import VirtualShell.Search.Grep
import VirtualShell.Shell.Act

/-! # Searching from the command line -/
namespace VirtualShell.Lookup
set_option autoImplicit false

/-- Takes its words as they were typed, because tests look like flags. -/
def find (c : Call) : Act Reply :=
  match FindFilters.read c.words with
  | .error fault => return .badArgument ("find: " ++ fault.message)
  | .ok (starts, filters) => do
    let (found, problems) ← Act.gather (if starts.isEmpty then ["."] else starts) fun start => do
      match ← Act.inspect fun s => do
          let _ ← s.stat (some start)
          s.find (some start) filters with
      | .ok found => return (found, [])
      | .error r => return ([], [r.problemWith "find" "cannot access" start])
    return .ofLines found problems

/-- What to search through: files, the piped text, or the working directory. -/
def report (s : Session) (pattern : String) (paths : List String) (piped : Option String)
    (o : GrepOptions) : Except Fault (Option GrepReport) := do
  match paths, piped with
  | _ :: _, _ => return some (← s.grep pattern paths o)
  | [], some text => return some (← grepText text pattern o.ignoreCase o.invert)
  | [], none => if o.recursive then return some (← s.grep pattern ["."] o) else return none

/-- The reply for a report. Complaints follow the lines; without any line they are a failure. -/
def reply (r : GrepReport) (pattern : Option Pattern) (markup numbered : Bool) : Reply :=
  let output := if markup then r.renderMarkup pattern numbered else r.render numbered
  let errors := if markup then r.errors.map escapeMarkup else r.errors
  if !errors.isEmpty && r.found.isEmpty then
    { Reply.failure ("\n".intercalate errors) with markup := markup, kind := r.kind }
  else { Reply.ofText ("\n".intercalate ((output :: errors).filter (· != ""))) with markup := markup }

def grepReply (s : Session) (c : Call) (pattern : String) (paths : List String) : Except Fault Reply := do
  let o : GrepOptions :=
    { recursive := c.isOn ["r", "R", "recursive"]
      ignoreCase := c.isOn ["i", "ignore-case"]
      invert := c.isOn ["v", "invert-match"] }
  match ← report s pattern paths c.piped o with
  | none => return .badArgument "grep: missing file operand"
  | some r =>
    if r.isFatal then return .error GrepReport.badPatternText .invalidPattern
    else return reply r (← readPattern pattern o.ignoreCase) c.markup (c.isOn ["n", "line-number"])

def grep (c : Call) : Act Reply :=
  match c.args with
  | [] => return .badArgument "usage: grep [-rinv] PATTERN [FILE...]"
  | pattern :: paths => do
    match ← Act.inspect (grepReply · c pattern paths) with
    | .ok reply => return reply
    | .error r => return .refused "grep" r

end VirtualShell.Lookup
