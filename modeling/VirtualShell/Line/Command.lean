import VirtualShell.Line.Redirect
import VirtualShell.Text.Digit

/-!
# Command lines

A line is empty, faulty, a command, or a pipeline of at least two. Each stage has its arguments, its
flags, and the text it was read from.
-/
namespace VirtualShell.Line
set_option autoImplicit false

inductive FlagValue where
  | set
  | value (text : String)
  deriving DecidableEq, Repr

def FlagValue.isOn : FlagValue → Bool
  | set => true
  | value text => text != ""

abbrev Flags := List (String × FlagValue)

namespace Flags

def put (flags : Flags) (name : String) (v : FlagValue) : Flags :=
  match flags with
  | [] => [(name, v)]
  | f :: fs => if f.1 == name then (name, v) :: fs else f :: put fs name v

def isOn (flags : Flags) (name : String) : Bool :=
  match flags.find? fun f => f.1 == name with
  | some f => f.2.isOn
  | none => false

def value? (flags : Flags) (name : String) : Option FlagValue :=
  (flags.find? fun f => f.1 == name).map Prod.snd

def anyOn (flags : Flags) (names : List String) : Bool := names.any flags.isOn

end Flags

structure Stage where
  name : String
  args : List String
  flags : Flags
  raw : String
  deriving DecidableEq, Repr

inductive ParsedLine where
  | empty (raw : String)
  | error (fault : LineFault) (raw : String)
  | command (stage : Stage) (redirect : Option Redirect)
  | pipeline (stages : List Stage) (raw : String) (redirect : Option Redirect)
  deriving DecidableEq, Repr

/-- Options that look like bundled flags, but are arguments. -/
def plainOptions : List String := ["-name", "-iname", "-type", "-mtime", "-mmin"]

def isNegativeNumber : List Char → Bool
  | '-' :: cs =>
    let digits := if cs.getLast? == some '\n' then cs.dropLast else cs
    !digits.isEmpty && digits.all Text.isDecimalDigit
  | _ => false

def putLetters (flags : Flags) : List Char → Flags
  | [] => flags
  | c :: cs => putLetters (flags.put (String.singleton c) .set) cs

def putLong (flags : Flags) (cs : List Char) : Flags :=
  if cs.contains '=' then
    flags.put (String.ofList (cs.takeWhile (· != '=')))
      (.value (String.ofList ((cs.dropWhile (· != '=')).drop 1)))
  else flags.put (String.ofList cs) .set

def sortWord (args : List String) (flags : Flags) (word : String) : List String × Flags :=
  match word.toList with
  | '-' :: '-' :: [] => (args ++ [word], flags)
  | '-' :: '-' :: cs => (args, putLong flags cs)
  | '-' :: c :: cs =>
    if plainOptions.contains word || isNegativeNumber word.toList || c == '/' then (args ++ [word], flags)
    else (args, putLetters flags (c :: cs))
  | _ => (args ++ [word], flags)

def sortWords (args : List String) (flags : Flags) : List String → List String × Flags
  | [] => (args, flags)
  | w :: ws =>
    let (args, flags) := sortWord args flags w
    sortWords args flags ws

def readStage? (text : String) : Option Stage :=
  match tokenize text with
  | [] => none
  | name :: rest =>
    let (args, flags) := sortWords [] [] rest
    some { name, args, flags, raw := text }

/-- Reads one part of a pipeline, which must have a word. -/
def readPart (part : List Char) : Except LineFault Stage :=
  match readStage? (String.ofList (Text.trim part)) with
  | some stage => .ok stage
  | none => .error .unexpectedPipe

def readStages (parts : List (List Char)) : Except LineFault (List Stage) := parts.mapM readPart

/-- The command of a line, and its last redirect. -/
def splitLine (cs : List Char) : Except LineFault (List Char × Option Redirect) := do
  if !isBalanced cs then throw .unmatchedQuote
  match ← extractRedirect cs with
  | none => return (cs, none)
  | some r => return (← dropRedirects r.command.length r.command, some r.redirect)

def readLine (line : String) (cs : List Char) : Except LineFault ParsedLine := do
  let (command, redirect) ← splitLine cs
  match splitPipes command with
  | first :: second :: rest =>
    let stages ← readStages (first :: second :: rest)
    return .pipeline stages (String.ofList cs) redirect
  | _ =>
    match readStage? (String.ofList command) with
    | some stage => return .command stage redirect
    | none => return .empty line

def parse (line : String) : ParsedLine :=
  match Text.trim line.toList with
  | [] => .empty line
  | cs =>
    match readLine line cs with
    | .ok parsed => parsed
    | .error fault => .error fault line

end VirtualShell.Line
