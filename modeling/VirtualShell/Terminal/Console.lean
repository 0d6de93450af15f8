import VirtualShell.Settings
import VirtualShell.Terminal.Editor

/-!
# The console

The console takes in one line at a time. A line goes to the editor while one is open, and to the
shell else; at the end of the input both are left.
-/
namespace VirtualShell
set_option autoImplicit false

inductive Stance where
  | prompting
  | editing (editor : Editor)
  | left
  /-- A fault ended the session. -/
  | broken
  deriving DecidableEq, Repr

structure Console where
  shell : Shell
  stance : Stance

namespace Console
open Terminal

def settingsOf (settings : Settings) : ShellOptions := ⟨settings.deniedElevated, settings.outputLimit⟩

def prompt (c : Console) (settings : Settings) : String :=
  match c.stance with
  | .prompting => promptOf c.shell.session settings.hostname
  | _ => ""

def follow (sh : Shell) (r : Reply) : Console × String :=
  if r.exits then (⟨sh, .left⟩, "")
  else
    match r.editor with
    | none => (⟨sh, .prompting⟩, shownReply r)
    | some request =>
      (⟨sh, .editing (Editor.ofRequest request)⟩, shownReply r ++ Editor.opening request)

def feed (settings : Settings) (c : Console) (line : String) : Console × String :=
  match c.stance with
  | .prompting =>
    match c.shell.run (settingsOf settings) settings.markup line with
    | (.ok r, sh) => follow sh r
    | (.error _, sh) => (⟨sh, .broken⟩, "")
  | .editing e =>
    match e.feed c.shell.session line with
    | .ok next =>
      (⟨{ c.shell with session := next.session },
        (match next.editor with
          | some e => .editing e
          | none => .prompting)⟩, next.shown)
    | .error _ => ({ c with stance := .broken }, "")
  | _ => (c, "")

def close (settings : Settings) (c : Console) : Console × String :=
  match c.stance with
  | .prompting => ({ c with stance := .left }, "\n")
  | .editing _ =>
    ({ c with stance := .left }, prompt { c with stance := .prompting } settings ++ "\n")
  | _ => (c, "")

def isOpen (c : Console) : Bool :=
  match c.stance with
  | .left | .broken => false
  | _ => true

def feedAll (settings : Settings) (c : Console) (shown : String) : List String → Console × String
  | [] =>
    let (c, more) := c.close settings
    (c, shown ++ more)
  | line :: rest =>
    let (c, more) := c.feed settings line
    if c.isOpen then feedAll settings c (shown ++ more ++ c.prompt settings) rest else (c, shown ++ more)

def run (settings : Settings) (sh : Shell) (input : List String) : Console × String :=
  let c : Console := ⟨sh, .prompting⟩
  c.feedAll settings (banner ++ c.prompt settings) input

end Console

end VirtualShell
