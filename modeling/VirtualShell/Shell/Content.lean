import VirtualShell.Decimal.Numeral
import VirtualShell.Session.Inspect
import VirtualShell.Shell.Act
import VirtualShell.Text.Quoted

/-! # What files hold -/
namespace VirtualShell.Content
set_option autoImplicit false

/-- The texts to work on: the files named or, if none is, what was piped in. -/
def inputs (command : String) (paths : List String) (piped : Option String) :
    Act (List (String × String) × List Problem) :=
  if paths.isEmpty then return ([("", piped.getD "")], [])
  else do
    let found ← paths.mapM fun path => do return (path, ← Act.inspect (·.readFile (some path)))
    return (found.filterMap fun (path, text) => text.toOption.map (path, ·),
      found.filterMap fun (_, text) =>
        match text with
        | .ok _ => none
        | .error r => some (r.problem command))

def cat (c : Call) : Act Reply :=
  match c.args, c.piped with
  | [], some text => return .ofText text
  | [], none => return .badArgument "cat: missing file operand"
  | paths, _ => do
    let (texts, problems) ← inputs "cat" paths none
    return .ofLines (texts.map fun text => dropFinalNewlines text.2) problems

def less (c : Call) : Act Reply :=
  match c.args, c.piped with
  | [], some text => return .ofText text
  | [], none => return .badArgument "Missing filename (\"less --help\" for help)"
  | path :: _, _ => do
    match ← Act.inspect (·.readFile (some path)) with
    | .ok text => return .ofText (dropFinalNewlines text)
    | .error r => return .refused "less" r

/-- Whether a file can be made at a path where there is nothing yet. -/
def hasPlaceFor (s : Session) (target : String) : Except Fault Bool :=
  match s.stat (some (Path.parentOf target)) with
  | .ok parent => .ok parent.isDir
  | .error (.refused _) => .ok false
  | .error (.crashed c) => crash c

/-- Looks whether a file can be edited; the terminal does the rest. -/
def openEditor (s : Session) (path : String) : Except Fault Reply :=
  let target := s.resolve (some path)
  match s.stat (some path) with
  | .ok n =>
    if n.isDir then .ok (.error ("nano: " ++ path ++ ": " ++ Obstacle.isADirectory.text) .isADirectory)
    else
      match s.readFile (some path) with
      | .ok content => .ok (.edit ⟨target, content, false⟩)
      | .error (.refused r) => .ok (.refused "nano" r)
      | .error (.crashed c) => crash c
  | .error (.crashed c) => crash c
  | .error (.refused r) =>
    if r.kind != .notFound then .ok (.refused "nano" r)
    else do
      if ← hasPlaceFor s target then return .edit ⟨target, "", true⟩
      else return .error ("nano: " ++ path ++ ": " ++ Obstacle.missing.text) .notFound

def nano (c : Call) : Act Reply :=
  match c.args with
  | [] => return .badArgument "nano: missing file operand"
  | path :: _ => do
    match ← Act.inspect (openEditor · path) with
    | .ok reply => return reply
    | .error r => return .refused "nano" r

/-- Shows its words as they were typed, flags among them. -/
def echo (c : Call) : Reply :=
  .ofText (" ".intercalate (match c.words with
    | "-n" :: words => words
    | words => words))

inductive CountFault where
  | notDigits (command text : String)
  | notANumber (text : String)
  deriving DecidableEq, Repr

def CountFault.message : CountFault → String
  | notDigits command text => command ++ ": invalid number of lines: '" ++ text ++ "'"
  | notANumber text => "invalid literal for int() with base 10: " ++ Text.quoted text

def isDigits (cs : List Char) : Bool := !cs.isEmpty && cs.all Text.isAnyDigit

/-- The text of the number of lines, and the operands behind it. -/
def splitCount (c : Call) : String × List String :=
  match c.args with
  | [] => ("10", [])
  | word :: rest =>
    if c.isOn ["n"] then (word, rest)
    else
      match word.toList with
      | '-' :: cs => if isDigits cs then (String.ofList cs, rest) else ("10", word :: rest)
      | _ => ("10", word :: rest)

def readCount (command text : String) : Except CountFault Nat :=
  if !isDigits text.toList then .error (.notDigits command text)
  else
    match readInteger? text with
    | some n => .ok n.toNat
    | none => .error (.notANumber text)

/-- Shows some lines of each text, several of them with headings. -/
def excerpt (command : String) (choose : Nat → List String → List String) (c : Call) : Act Reply :=
  let (text, paths) := splitCount c
  match readCount command text with
  | .error fault => return .badArgument fault.message
  | .ok count => do
    let (texts, problems) ← inputs command paths c.piped
    let headed := texts.length > 1
    let lines := texts.flatMap fun (path, text) =>
      (if headed then ["==> " ++ path ++ " <=="] else []) ++ choose count (linesOf text)
    return .ofLines lines problems

def head : Call → Act Reply := excerpt "head" fun count lines => lines.take count

def tail : Call → Act Reply := excerpt "tail" fun count lines => lines.drop (lines.length - count)

def counts (linesOnly : Bool) (path text : String) : String :=
  let lines := toString (linesOf text).length
  let counted :=
    if linesOnly then lines
    else lines ++ " " ++ toString (wordCount text) ++ " " ++ toString text.length
  if path == "" then counted else counted ++ " " ++ path

def wc (c : Call) : Act Reply := do
  let (texts, problems) ← inputs "wc" c.args c.piped
  return .ofLines (texts.map fun (path, text) => counts (c.isOn ["l"]) path text) problems

def sort (c : Call) : Act Reply := do
  let (texts, problems) ← inputs "sort" c.args c.piped
  let sorted := (texts.flatMap fun text => linesOf text.2).mergeSort fun a b => !decide (b < a)
  return .ofLines (if c.isOn ["r"] then sorted.reverse else sorted) problems

end VirtualShell.Content
