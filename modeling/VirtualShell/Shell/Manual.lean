import VirtualShell.Shell.Act
import VirtualShell.Shell.Utility
import VirtualShell.Text.Case

/-! # The manual -/
namespace VirtualShell
set_option autoImplicit false

namespace Manual

def page (lines : List String) : String := String.intercalate "\n" lines

def onMan : String := page
  ["NAME",
   "    man - an interface to the system reference manuals",
   "",
   "SYNOPSIS",
   "    man COMMAND",
   "",
   "DESCRIPTION",
   "    Shows the manual page of COMMAND. Try 'whatis' for a one-line summary",
   "    or 'apropos' to search by keyword."]

def onWhatis : String := page
  ["NAME",
   "    whatis - display one-line manual page descriptions",
   "",
   "SYNOPSIS",
   "    whatis COMMAND...",
   "",
   "DESCRIPTION",
   "    Prints the short description of each COMMAND, or",
   "    'COMMAND: nothing appropriate.' when there is none."]

def onApropos : String := page
  ["NAME",
   "    apropos - search command descriptions by keyword",
   "",
   "SYNOPSIS",
   "    apropos KEYWORD",
   "",
   "DESCRIPTION",
   "    Lists every command whose name or description contains KEYWORD,",
   "    ignoring case. Example: apropos permission"]

def onLess : String := page
  ["NAME",
   "    less - view file contents",
   "",
   "SYNOPSIS",
   "    less FILE",
   "    COMMAND | less",
   "",
   "DESCRIPTION",
   "    Displays FILE, or the output of the previous command in a pipeline."]

def onNano : String := page
  ["NAME",
   "    nano - edit files in a simplified mode",
   "",
   "SYNOPSIS",
   "    nano FILE",
   "",
   "DESCRIPTION",
   "    Opens FILE in a line editor. Every line you type is added to the end",
   "    of the buffer. A FILE that does not exist yet is created on save.",
   "",
   "COMMANDS",
   "    /save    write the buffer to FILE",
   "    /show    print the buffer",
   "    /exit    leave the editor; unsaved lines are lost"]

/-- The page on a command. Most commands have no more than their description. -/
def pageOf : Utility → String
  | .man => onMan
  | .whatis => onWhatis
  | .apropos => onApropos
  | .less => onLess
  | .nano => onNano
  | u => page ["NAME", "    " ++ u.summary]

def occursIn (part : List Char) : List Char → Bool
  | [] => part.isEmpty
  | c :: cs => part.isPrefixOf (c :: cs) || occursIn part cs

/-- Whether a keyword in small letters stands in the name or the description of a command. -/
def mentions (u : Utility) (keyword : String) : Bool :=
  occursIn keyword.toList (Text.lower u.name).toList ||
    occursIn keyword.toList (Text.lower u.description).toList

def man (c : Call) : Reply :=
  match c.args with
  | [] => .badArgument "What manual page do you want?"
  | name :: _ =>
    match Utility.ofName? name with
    | some u => .ofText (pageOf u)
    | none => .error ("No manual entry for " ++ name) .notFound

def whatis (c : Call) : Reply :=
  match c.args with
  | [] => .badArgument "whatis what?"
  | names =>
    let found := names.filterMap Utility.ofName?
    let missing := names.filter fun name => (Utility.ofName? name).isNone
    .ofLines (found.map Utility.summary) (missing.map fun name => ⟨name ++ ": nothing appropriate.", .notFound⟩)

def apropos (c : Call) : Reply :=
  match c.args with
  | [] => .badArgument "apropos what?"
  | keyword :: _ =>
    match Utility.all.filter (mentions · (Text.lower keyword)) with
    | [] => .error (keyword ++ ": nothing appropriate.") .notFound
    | found => .ofText (page (found.map Utility.summary))

end Manual

end VirtualShell
