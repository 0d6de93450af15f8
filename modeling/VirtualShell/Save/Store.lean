import VirtualShell.Save.Envelope
import VirtualShell.Session.Restore
import VirtualShell.Snapshot.Model

/-!
# The save file

A save that cannot be read is taken away. What else may go wrong is answered with a failed save or
with no data.
-/
namespace VirtualShell
set_option autoImplicit false

inductive Store where
  | absent
  | holds (text : String)
  /-- There is no file, and none can be made. -/
  | blocked
  deriving DecidableEq, Repr

namespace Store

def save (store : Store) (now : Float) (data : Json) : Bool × Store :=
  match store with
  | blocked => (false, blocked)
  | _ => (true, holds (Save.textOf now data))

def clear : Store → Store
  | blocked => blocked
  | _ => absent

def load (store : Store) : Option Json.Fields × Store :=
  match store with
  | holds text =>
    match Save.read text with
    | .nothing => (none, store)
    | .data fields => (some fields, store)
    | .corrupt => (none, store.clear)
  | _ => (none, store)

def saveSession (store : Store) (now : Float) (s : Session) (others : Json.Fields) : Bool × Store :=
  store.save now (.object (others.put Save.sessionKey s.snapshot))

def loadSession (store : Store) (s : Session) : Option (Except Fault Session) × Store :=
  let (data, store) := store.load
  (data.bind fun fields => (Json.Fields.get? fields Save.sessionKey).map s.restore, store)

end Store

end VirtualShell
