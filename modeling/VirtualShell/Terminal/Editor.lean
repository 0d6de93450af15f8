import VirtualShell.Terminal.Screen

/-!
# The line editor

Lines that are typed are added to those of the file. Three lines that start with a slash are orders.
-/
namespace VirtualShell
set_option autoImplicit false

structure Editor where
  path : String
  lines : List String
  deriving DecidableEq, Repr

namespace Editor
open Terminal

inductive Order where
  | leave
  | show
  | save
  | add (line : String)
  deriving DecidableEq, Repr

def Order.ofLine (line : String) : Order :=
  if line == "/exit" then .leave
  else if line == "/show" then .show
  else if line == "/save" then .save
  else .add line

def ofRequest (request : EditorRequest) : Editor := ⟨request.path, linesOf request.content⟩

def opening (request : EditorRequest) : String :=
  let read := (ofRequest request).lines.length
  let status := if request.newFile then "[ New File ]" else "[ Read " ++ toString read ++ " lines ]"
  colouredLine .cyan ("  nano  " ++ request.path ++ "  " ++ status) ++
    colouredLine .cyan "  /save to write, /show to print, /exit to quit"

def content (e : Editor) : String := if e.lines.isEmpty then "" else "\n".intercalate e.lines ++ "\n"

def save (e : Editor) (s : Session) : Except Crash (Session × String) :=
  match (Session.writeFile (some e.path) e.content false).run s with
  | (.ok _, s) => .ok (s, colouredLine .green ("[ Wrote " ++ toString e.lines.length ++ " lines ]"))
  | (.error (.refused r), s) => .ok (s, colouredLine .red ("nano: " ++ r.message))
  | (.error (.crashed c), _) => .error c

/-- Where a line leads: to the session, the editor unless it was left, and what is shown. -/
structure Next where
  session : Session
  editor : Option Editor
  shown : String

def feed (e : Editor) (s : Session) (line : String) : Except Crash Next :=
  match Order.ofLine line with
  | .leave => .ok ⟨s, none, ""⟩
  | .show => .ok ⟨s, some e, "\n".intercalate e.lines ++ "\n"⟩
  | .save => do
    let (s, shown) ← e.save s
    return ⟨s, some e, shown⟩
  | .add line => .ok ⟨s, some { e with lines := e.lines ++ [line] }, ""⟩

def feedAll (e : Editor) (s : Session) (shown : String) : List String → Except Crash (Session × String)
  | [] => .ok (s, shown)
  | line :: rest => do
    let next ← e.feed s line
    match next.editor with
    | none => return (next.session, shown ++ next.shown)
    | some e => e.feedAll next.session (shown ++ next.shown) rest

def run (request : EditorRequest) (s : Session) (input : List String) : Except Crash (Session × String) :=
  (ofRequest request).feedAll s (opening request) input

end Editor

end VirtualShell
