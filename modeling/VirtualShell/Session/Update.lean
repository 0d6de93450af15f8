import VirtualShell.Session.State

/-!
# Operations step by step

An operation looks at the session and writes to it. What it has written before it fails stays
written, so whatever may stop it has to be looked at first.
-/
namespace VirtualShell
set_option autoImplicit false

/-- Steps that may fail, with the session that they leave in either case. -/
def Update (α : Type) : Type := Session → Except Fault α × Session

namespace Update

variable {α β : Type}

def run (u : Update α) (s : Session) : Except Fault α × Session := u s

instance : Monad Update where
  pure a := fun s => (.ok a, s)
  bind u f := fun s =>
    match u.run s with
    | (.ok a, s') => (f a).run s'
    | (.error fault, s') => (.error fault, s')

instance : MonadLift (Except Fault) Update where
  monadLift result := fun s => (result, s)

def session : Update Session := fun s => (.ok s, s)

def look (see : Session → Except Fault α) : Update α := fun s => (see s, s)

def write (change : Session → Session) : Update Unit := fun s => (.ok (), change s)

def after (u : Update α) (s : Session) : Except Fault Session :=
  match u.run s with
  | (.ok _, s') => .ok s'
  | (.error fault, _) => .error fault

end Update

end VirtualShell
