import VirtualShell.Invocation
import VirtualShell.Save.Store
import VirtualShell.Seed
import VirtualShell.Terminal.Console

/-!
# The program

The program restores a saved session on demand, runs one line or takes in its input, and saves on
demand.
-/
namespace VirtualShell.Program
set_option autoImplicit false
open Terminal

structure Outcome where
  status : Nat
  shown : String
  complaint : String
  store : Store

def versionLine : String := "ShellQuest " ++ versionText ++ "\n"

def helpText : String := "\n".intercalate
  ["usage: shellquest [OPTIONS]",
   "",
   "    --user USER, -u USER          start the session as USER",
   "    --command LINE, -c LINE       run one command line and exit",
   "    --load                        restore the saved game first",
   "    --save                        save the game on exit",
   "    --save-path PATH              the save file",
   "    --metrics-port PORT           the port for metrics",
   "    --log-level LEVEL, -l LEVEL   DEBUG, INFO, WARNING, ERROR or CRITICAL",
   "    --version, -v                 show the version and exit",
   "    --help, -h                    show this text and exit",
   ""]

/-- The way the program ends when its arguments are not followed. -/
def endWith (store : Store) : Invocation.Ending → Outcome
  | .version => ⟨0, versionLine, "", store⟩
  | .help => ⟨0, helpText, "", store⟩
  | .misuse => ⟨2, "", "", store⟩

def unknownUser (name : String) : String := colouredLine .red ("shellquest: unknown user '" ++ name ++ "'")

def warning (text : String) : String := colouredLine .yellow ("[!] " ++ text)

def saveFailed : String := warning "Failed to save the game"

def given (text : Option String) : Option String := text.filter (· != "")

def userOf (settings : Settings) (i : Invocation) : String := (given i.user).getD settings.defaultUser

def savePath (settings : Settings) (i : Invocation) : String :=
  (i.savePath.map HostPath.normal).getD settings.savePath

def restored (s : Session) (store : Store) : Shell × Store × String :=
  match store.loadSession s with
  | (none, store) => (⟨s, []⟩, store, "")
  | (some (.ok s), store) => (⟨s, [.restore false]⟩, store, "")
  | (some (.error (.refused r)), store) => (⟨s, [.restore true]⟩, store, warning r.message)
  | (some (.error (.crashed _)), store) => (⟨s, []⟩, store, "")

/-- Runs one line, or takes in all input. The answer holds the status and whether it may be saved. -/
def play (settings : Settings) (i : Invocation) (sh : Shell) (input : List String) :
    Nat × Bool × Shell × String :=
  match i.command with
  | some line =>
    match sh.run (Console.settingsOf settings) settings.markup line with
    | (.ok r, sh) => (if r.failed then 1 else 0, true, sh, shownReply r)
    | (.error _, sh) => (1, false, sh, "")
  | none =>
    let (c, shown) := Console.run settings sh input
    if c.stance == .broken then (1, false, c.shell, shown) else (0, true, c.shell, shown)

def keep (i : Invocation) (s : Session) (store : Store) : Store × String :=
  if i.save then
    match store.saveSession s.now s [] with
    | (true, store) => (store, "")
    | (false, store) => (store, saveFailed)
  else (store, "")

def run (settings : Settings) (i : Invocation) (now : Float) (input : List String) (store : Store) : Outcome :=
  let user := userOf settings i
  match Session.fresh? user now with
  | none => ⟨2, "", unknownUser user, store⟩
  | some s =>
    let (sh, store, told) := if i.load then restored s store else (⟨s, []⟩, store, "")
    let (status, complete, sh, shown) := play settings i sh input
    if complete then
      let (store, more) := keep i sh.session store
      ⟨status, told ++ shown ++ more, "", store⟩
    else ⟨status, told ++ shown, "", store⟩

end VirtualShell.Program
