import VirtualShell.Pattern.Matcher
import VirtualShell.Pattern.Reader
import VirtualShell.Problem
import VirtualShell.Search.Trail
import VirtualShell.Text.Markup

/-!
# Searching lines

A report holds the lines that match, or those that do not, with the files that they stand in. Files
that cannot be searched are reported as problems; they do not end the search.
-/
namespace VirtualShell
set_option autoImplicit false

structure LineMatch where
  path : String
  number : Nat
  line : String
  deriving DecidableEq, Repr

structure GrepReport where
  found : List LineMatch
  problems : List Problem
  /-- Whether lines are shown with their files. -/
  manyFiles : Bool

structure GrepOptions where
  recursive : Bool
  ignoreCase : Bool
  invert : Bool
  deriving DecidableEq, Repr

/-- The text with the spans marked, `at_` being where `cs` begins. -/
def markSpansFrom (at_ : Nat) (cs : List Char) : List (Nat × Nat) → String
  | [] => String.ofList (Text.escapeChars cs)
  | (first, last) :: spans =>
    if first == last then markSpansFrom at_ cs spans
    else
      let before := cs.take (first - at_)
      let marked := (cs.drop (first - at_)).take (last - first)
      String.ofList (Text.escapeChars before) ++
        markSpan "grep-match" (String.ofList (Text.escapeChars marked)) ++
          markSpansFrom last (cs.drop (last - at_)) spans

def highlight (pattern : Option Pattern) (line : String) : String :=
  match pattern with
  | none => escapeMarkup line
  | some p => markSpansFrom 0 line.toList (p.spans line.toList.toArray)

namespace GrepReport

def badPatternText : String := "grep: invalid regular expression"

def badPattern : GrepReport := ⟨[], [⟨badPatternText, .invalidPattern⟩], false⟩

def kind (r : GrepReport) : Option ErrorKind := Problem.lastKind r.problems

def isFatal (r : GrepReport) : Bool := r.kind == some .invalidPattern

def errors (r : GrepReport) : List String := r.problems.map Problem.text

def renderWith (path line : String → String) (r : GrepReport) (numbered : Bool) : String :=
  String.intercalate "\n" (r.found.map fun m =>
    (if r.manyFiles then path m.path ++ ":" else "") ++
      (if numbered then toString m.number ++ ":" else "") ++ line m.line)

def render (r : GrepReport) (numbered : Bool) : String := r.renderWith id id numbered

def renderMarkup (r : GrepReport) (pattern : Option Pattern) (numbered : Bool) : String :=
  r.renderWith (fun path => markSpan "grep-path" (escapeMarkup path)) (highlight pattern) numbered

end GrepReport

def readPattern (text : String) (ignoreCase : Bool) : Except Fault (Option Pattern) :=
  match Pattern.read text ignoreCase with
  | .ok p => .ok (some p)
  | .error .invalid => .ok none
  | .error .repeatTooLarge => crash .repeatTooLarge
  | .error .mixedAlphabets => crash .mixedAlphabets

def matchLinesFrom (p : Pattern) (invert : Bool) (path : String) (number : Nat) :
    List String → List LineMatch
  | [] => []
  | line :: lines =>
    if p.occursIn line != invert then
      ⟨path, number, line⟩ :: matchLinesFrom p invert path (number + 1) lines
    else matchLinesFrom p invert path (number + 1) lines

def matchLines (p : Pattern) (invert : Bool) (path text : String) : List LineMatch :=
  matchLinesFrom p invert path 1 (linesOf text)

namespace GrepReport

def addLines (r : GrepReport) (lines : List LineMatch) : GrepReport := { r with found := r.found ++ lines }

def addProblem (r : GrepReport) (text : String) (kind : ErrorKind) : GrepReport :=
  { r with problems := r.problems ++ [⟨"grep: " ++ text, kind⟩] }

def addFile (s : Subject) (p : Pattern) (invert : Bool) (r : GrepReport) (shown : String) (n : Node) :
    Except Fault GrepReport := do
  if ← s.may .read n then return r.addLines (matchLines p invert shown n.content)
  else return r.addProblem (shown ++ ": " ++ Obstacle.denied.text) .permissionDenied

def addTrail (s : Subject) (p : Pattern) (invert : Bool) (r : GrepReport) (trail : Trail) :
    Except Fault GrepReport := do
  let files := trail.nodes.filter fun entry => !entry.2.isDir
  let r ← files.foldlM (fun r entry => r.addFile s p invert entry.1 entry.2) r
  match trail.fault with
  | some fault => .error fault
  | none => return r

def addOperand (s : Session) (p : Pattern) (o : GrepOptions) (r : GrepReport) (path : String) :
    Except Fault GrepReport :=
  match s.stat (some path) with
  | .error (.refused refusal) => .ok (r.addProblem refusal.message refusal.kind)
  | .error (.crashed c) => crash c
  | .ok n =>
    if !n.isDir then r.addFile s.subject p o.invert path n
    else if !o.recursive then .ok (r.addProblem (path ++ ": " ++ Obstacle.isADirectory.text) .isADirectory)
    else r.addTrail s.subject p o.invert (s.walk (some path))

end GrepReport

def Session.grep (s : Session) (pattern : String) (paths : List String) (o : GrepOptions) :
    Except Fault GrepReport := do
  match ← readPattern pattern o.ignoreCase with
  | none => return .badPattern
  | some p =>
    paths.foldlM (fun r path => r.addOperand s p o path) ⟨[], [], o.recursive || paths.length > 1⟩

def grepText (text pattern : String) (ignoreCase invert : Bool) : Except Fault GrepReport := do
  match ← readPattern pattern ignoreCase with
  | none => return .badPattern
  | some p => return ⟨matchLines p invert "(standard input)" text, [], false⟩

end VirtualShell
