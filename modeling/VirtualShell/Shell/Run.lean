import VirtualShell.Shell.Change
import VirtualShell.Shell.Content
import VirtualShell.Shell.Identity
import VirtualShell.Shell.Listing
import VirtualShell.Shell.Lookup
import VirtualShell.Shell.Manual
import VirtualShell.Shell.Tally

/-!
# Running command lines

A stage whose command elevates another one carries that one in its text, so a stage stands for a
chain of stages. The last command of a line may answer with markup, unless its output is redirected.
A command that crashes is a failed command; a crash when the output is written ends the line.
-/
namespace VirtualShell
set_option autoImplicit false

structure Shell where
  session : Session
  tally : Tally

structure ShellOptions where
  /-- Commands that are never run elevated, beyond those that never are. -/
  denied : List String
  /-- The greatest number of characters of an output, if it is positive. -/
  outputLimit : Int

def ShellOptions.default : ShellOptions := ⟨[], 100000⟩

def dangerousCommands : List String := ["mkfs", "dd", "shutdown", "reboot", "halt", "poweroff"]

def rootTargets : List String := ["/", "/*", "/.", "/.."]

/-- Whether a command is never run elevated: a dangerous one, and removing the root. -/
def isBlocked (denied : List String) (name : String) (args : List String) (flags : Line.Flags) : Bool :=
  dangerousCommands.contains name || denied.contains name ||
    (name == "rm" &&
      (flags.isOn "no-preserve-root" ||
        (flags.anyOn Change.recursiveFlags && args.any rootTargets.contains)))

namespace Utility

/-- What a command does. Elevating is no act of its own. -/
def act (u : Utility) (c : Call) : Act Reply :=
  match u with
  | apropos => return Manual.apropos c
  | cat => Content.cat c
  | cd => Identity.cd c
  | chmod => Change.chmod c
  | chown => Change.chown c
  | cp => Change.cp c
  | echo => return Content.echo c
  | find => Lookup.find c
  | grep => Lookup.grep c
  | groupadd => Identity.groupadd c
  | groups => Identity.groups c
  | head => Content.head c
  | id => Identity.id c
  | less => Content.less c
  | ls => Listing.ls c
  | man => return Manual.man c
  | mkdir => Change.mkdir c
  | mv => Change.mv c
  | nano => Content.nano c
  | pwd => Identity.pwd
  | rm => Change.rm c
  | rmdir => Change.rmdir c
  | sort => Content.sort c
  | stat => Change.stat c
  | su => Identity.su c
  | elevate => return .badArgument "usage: sudo command"
  | tail => Content.tail c
  | touch => Change.touch c
  | useradd => Identity.useradd c
  | userdel => Identity.userdel c
  | usermod => Identity.usermod c
  | wc => Content.wc c
  | whatis => return Manual.whatis c
  | whoami => Identity.whoami

end Utility

namespace Line.Stage

def elevated? (stage : Stage) : Option Stage := readStage? (dropWord stage.raw)

def chainFrom : Nat → Stage → List Stage
  | 0, stage => [stage]
  | fuel + 1, stage =>
    if stage.name == Utility.elevate.name then
      match stage.elevated? with
      | some inner => stage :: chainFrom fuel inner
      | none => [stage]
    else [stage]

/-- A stage and those it elevates. Each has a shorter text than the one before. -/
def chain (stage : Stage) : List Stage := chainFrom stage.raw.length stage

end Line.Stage

namespace Shell

def count (sh : Shell) (e : Event) : Shell := { sh with tally := e :: sh.tally }

def countRefusal (sh : Shell) (kind : Option ErrorKind) : Shell :=
  match kind with
  | some kind => { sh with tally := sh.tally.refuse kind }
  | none => sh

def countRun (sh : Shell) (name : String) (r : Reply) : Shell :=
  (sh.count (.command name r.failed)).countRefusal r.kind

def crashed (name : String) : Reply := .failure (name ++ ": unexpected error")

/-- Does what a command does; a crash is a failure without a kind. -/
def perform (sh : Shell) (name : String) (act : Act Reply) : Reply × Shell :=
  match act.run sh.session with
  | (.ok r, s) => (r, { sh with session := s })
  | (.error _, s) => (crashed name, { sh with session := s })

def elevate (sh : Shell) (name : String) (inner : Shell → Reply × Shell) : Reply × Shell :=
  let (mark, s) := sh.session.enterElevation
  let (r, sh) := inner { sh with session := s }
  match Session.leaveElevation mark sh.session with
  | (.ok _, s) => (r, { sh with session := s })
  | (.error _, s) => (crashed name, { sh with session := s })

def runChain (o : ShellOptions) (piped : Option String) (markup : Bool) :
    List Line.Stage → Shell → Reply × Shell
  | [], sh => (.silent, sh)
  | stage :: inners, sh =>
    match Utility.ofName? stage.name with
    | none => (.error (stage.name ++ ": command not found") .notFound, sh)
    | some u =>
      if u.isAdminOnly && !sh.session.subject.isAdmin then
        (.error (Refusal.adminOnly stage.name).message .permissionDenied,
          sh.countRefusal (some .permissionDenied))
      else
        let (r, sh) : Reply × Shell :=
          match inners.head? with
          | none => sh.perform stage.name (u.act ⟨stage, piped, markup⟩)
          | some inner =>
            if stage.args.isEmpty then sh.perform stage.name (u.act ⟨stage, piped, markup⟩)
            else if isBlocked o.denied inner.name inner.args inner.flags then
              (.error (stage.name ++ ": " ++ inner.name ++ ": command blocked for safety") .blocked,
                sh.count (.elevation true))
            else (sh.count (.elevation false)).elevate stage.name (runChain o piped markup inners)
        (r, sh.countRun stage.name r)

def runStage (o : ShellOptions) (piped : Option String) (markup : Bool) (stage : Line.Stage) (sh : Shell) :
    Reply × Shell :=
  runChain o piped markup stage.chain sh

/-- Runs the stages of a line, each with the output of the one before, up to the first that fails. -/
def runStages (o : ShellOptions) (markup : Bool) (piped : Option String) :
    List Line.Stage → Shell → Reply × Shell
  | [], sh => (.silent, sh)
  | [stage], sh => sh.runStage o piped markup stage
  | stage :: next :: rest, sh =>
    let (r, sh) := sh.runStage o piped false stage
    if r.failed then (r, sh) else runStages o markup (some r.output) (next :: rest) sh

end Shell

def truncationNotice : String := "\n[output truncated]"

/-- The lines of a text that are whole, without the newlines behind them. -/
def wholeLines (cs : List Char) : List Char := (cs.reverse.dropWhile (· != '\n')).dropWhile (· == '\n') |>.reverse

def Reply.cap (limit : Int) (r : Reply) : Reply :=
  if limit ≤ 0 || (r.output.length : Int) ≤ limit then r
  else
    let kept := r.output.toList.take limit.toNat
    { r with output := String.ofList (if r.markup then wholeLines kept else kept) ++ truncationNotice }

def redirected (output : String) : String := if output == "" then "" else output ++ "\n"

namespace Shell

def writeOutput (sh : Shell) (redirect : Line.Redirect) (output : String) : Except Crash Reply × Shell :=
  match (Session.writeFile (some redirect.target) (redirected output) redirect.append).run sh.session with
  | (.ok _, s) => (.ok .silent, { sh with session := s })
  | (.error (.refused r), s) => (.ok (.refused "bash" r), { sh with session := s })
  | (.error (.crashed c), s) => (.error c, { sh with session := s })

def runLine (o : ShellOptions) (markup : Bool) (stages : List Line.Stage) (redirect : Option Line.Redirect)
    (sh : Shell) : Except Crash Reply × Shell :=
  let (r, sh) := sh.runStages o (markup && redirect.isNone) none stages
  match redirect with
  | none => (.ok (r.cap o.outputLimit), sh)
  | some target => if r.failed then (.ok (r.cap o.outputLimit), sh) else sh.writeOutput target r.output

def execute (o : ShellOptions) (markup : Bool) (line : Line.ParsedLine) (sh : Shell) :
    Except Crash Reply × Shell :=
  match line with
  | .empty _ => (.ok .silent, sh)
  | .error fault _ => (.ok (.error fault.message .badLine), sh.count .badLine)
  | .command stage redirect => sh.runLine o markup [stage] redirect
  | .pipeline stages _ redirect => sh.runLine o markup stages redirect

def exitCommands : List String := ["exit", "logout"]

def run (o : ShellOptions) (markup : Bool) (line : String) (sh : Shell) : Except Crash Reply × Shell :=
  if exitCommands.contains (trimText line) then (.ok .exit, sh)
  else sh.execute o markup (Line.parse line)

end Shell

end VirtualShell
