import Std.Time.DateTime.Timestamp
import VirtualShell.Program

/-! # The command line -/
namespace VirtualShell.Main
set_option autoImplicit false

def clock : IO Float := do
  let now ← Std.Time.Timestamp.now
  return Float.ofInt now.toNanosecondsSinceUnixEpoch.toInt / 1000000000.0

def environment : IO Environment := do
  let entries ← Environment.names.mapM fun name => do
    let value ← IO.getEnv (Environment.beginning ++ name)
    return value.map (Environment.beginning ++ name, ·)
  return entries.filterMap id

def openStore (path : String) : IO Store := do
  match ← (IO.FS.readFile path).toBaseIO with
  | .ok text => return .holds text
  | .error (.noFileOrDirectory ..) => return .absent
  | .error _ => return .blocked

def writeStore (path : String) : Store → IO Bool
  | .holds text => do
    let written := do
      IO.FS.createDirAll (HostPath.directory path)
      IO.FS.writeFile path text
    match ← written.toBaseIO with
    | .ok _ => return true
    | .error _ => return false
  | .absent => do
    let _ ← (IO.FS.removeFile path).toBaseIO
    return true
  | .blocked => return false

def showText (text : String) : IO Unit := do
  let out ← IO.getStdout
  out.putStr text
  out.flush

/-- Takes in lines until the console is left. -/
partial def converse (settings : Settings) (c : Console) : IO Console := do
  if !c.isOpen then return c
  showText (c.prompt settings)
  let line ← (← IO.getStdin).getLine
  let now ← clock
  let c := { c with shell.session.now := now }
  let (c, shown) :=
    if line.isEmpty then c.close settings
    else c.feed settings (if line.endsWith "\n" then (line.dropEnd 1).toString else line)
  showText shown
  converse settings c

def play (settings : Settings) (i : Invocation) (sh : Shell) : IO (Nat × Bool × Shell) := do
  match i.command with
  | some _ =>
    let (status, complete, sh, shown) := Program.play settings i sh []
    showText shown
    return (status, complete, sh)
  | none =>
    showText Terminal.banner
    let c ← converse settings ⟨sh, .prompting⟩
    return if c.stance == .broken then (1, false, c.shell) else (0, true, c.shell)

def keep (i : Invocation) (sh : Shell) (path : String) (store : Store) : IO Unit := do
  if i.save then
    let now ← clock
    let (ready, store) := store.saveSession now sh.session []
    let saved ← if ready then writeStore path store else pure false
    if !saved then showText Program.saveFailed

def start (settings : Settings) (i : Invocation) : IO UInt32 := do
  let user := Program.userOf settings i
  match Session.fresh? user (← clock) with
  | none =>
    (← IO.getStderr).putStr (Program.unknownUser user)
    return 2
  | some s =>
    let path := Program.savePath settings i
    let store ← openStore path
    let (sh, left, told) := if i.load then Program.restored s store else (⟨s, []⟩, store, "")
    if left != store then
      let _ ← writeStore path left
    showText told
    let (status, complete, sh) ← play settings i sh
    if complete then keep i sh path left
    return UInt32.ofNat status

end VirtualShell.Main

open VirtualShell in
def main (args : List String) : IO UInt32 := do
  let root ← IO.currentDir
  let home := (← IO.getEnv "HOME").getD "/"
  match Settings.ofEnvironment ⟨root.toString, home⟩ (← Main.environment), Invocation.read args with
  | _, .error ending =>
    let outcome := Program.endWith .absent ending
    Main.showText outcome.shown
    return UInt32.ofNat outcome.status
  | .error .unknownHome, _ =>
    (← IO.getStderr).putStr "shellquest: unknown home directory\n"
    return 1
  | .ok settings, .ok i => Main.start settings i
