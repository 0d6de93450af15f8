import VirtualShell.Session.Update

/-!
# Switching and elevating

A block that runs elevated acts as the administrator and returns to the former user at its end,
unless the user was switched inside of it.
-/
namespace VirtualShell.Session
set_option autoImplicit false

def switchUser (username : String) : Update String := do
  let s ← Update.session
  if !s.accounts.contains username then refuse (.noSuchLogin username)
  else if !s.subject.isAdmin && username != s.username then refuse .wrongPassword
  else
    Update.write fun s => { s with username := username, switches := s.switches + 1 }
    return username

def goHome (s : Session) : Session :=
  { s with cwd := if (s.lookup (s.resolve (some s.home))).isSome then s.home else "/" }

structure Mark where
  username : String
  switches : Nat

def enterElevation (s : Session) : Mark × Session :=
  (⟨s.username, s.switches⟩, { s with username := adminName, elevations := s.username :: s.elevations })

/-- Ends an elevated block. There is nothing to return to when a restore has come in between. -/
def leaveElevation (mark : Mark) (s : Session) : Except Fault Unit × Session :=
  match s.elevations with
  | [] => (crash .noElevation, s)
  | _ :: rest =>
    (.ok (),
      { s with
        elevations := rest
        username := if s.switches == mark.switches then mark.username else s.username })

end VirtualShell.Session
