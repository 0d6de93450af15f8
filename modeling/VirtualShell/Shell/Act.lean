import VirtualShell.Line.Command
import VirtualShell.Session.Update
import VirtualShell.Shell.Reply

/-!
# What commands do

An act changes the session and may crash; the changes made before a crash stay. When an operation is
refused, its act goes on with the refusal.
-/
namespace VirtualShell
set_option autoImplicit false

abbrev Act (α : Type) := ExceptT Crash (StateM Session) α

/-- A stage that is to be run: the text that is piped into it, and whether it may answer with markup. -/
structure Call where
  stage : Line.Stage
  piped : Option String
  markup : Bool

/-- The arguments as they were typed, flags among them. -/
def Call.words (c : Call) : List String := (Line.tokenize c.stage.raw).tail

def Call.args (c : Call) : List String := c.stage.args

def Call.isOn (c : Call) (names : List String) : Bool := c.stage.flags.anyOn names

namespace Act

def attempt {α : Type} (operation : Update α) : Act (Except Refusal α) :=
  ExceptT.mk fun s =>
    match operation.run s with
    | (.ok a, s') => (.ok (.ok a), s')
    | (.error (.refused r), s') => (.ok (.error r), s')
    | (.error (.crashed c), s') => (.error c, s')

def inspect {α : Type} (look : Session → Except Fault α) : Act (Except Refusal α) :=
  attempt (Update.look look)

def forOperands (operands : List String) (act : String → Act (List Problem)) : Act (List Problem) :=
  match operands with
  | [] => return []
  | operand :: rest => do
    let problems ← act operand
    let more ← forOperands rest act
    return problems ++ more

def perform {α : Type} (operands : List String) (operation : String → Update α)
    (blame : String → Refusal → Problem) : Act Reply := do
  let problems ← forOperands operands fun operand => do
    match ← attempt (operation operand) with
    | .ok _ => return []
    | .error r => return [blame operand r]
  return .ofProblems problems

abbrev Lines := List String × List Problem

def gather (operands : List String) (act : String → Act Lines) : Act Lines :=
  match operands with
  | [] => return ([], [])
  | operand :: rest => do
    let (lines, problems) ← act operand
    let (moreLines, moreProblems) ← gather rest act
    return (lines ++ moreLines, problems ++ moreProblems)

end Act

end VirtualShell
