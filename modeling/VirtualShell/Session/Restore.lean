import VirtualShell.Session.Update
import VirtualShell.Snapshot.Reader

/-!
# Going back to a snapshot

What a snapshot leaves out is kept, and open elevations are forgotten. The session is written to only
when the whole snapshot has been read and found sound.
-/
namespace VirtualShell
set_option autoImplicit false

namespace Snapshot

/-- The accounts of a snapshot; without any of its own those of the session stay. -/
def accountsOver (model : Snapshot) (s : Session) : Accounts :=
  match model.users with
  | some users => Roster.ofList (users.map UserDraft.toAccount)
  | none => s.accounts

/-- The groups of a snapshot, or else of the session, and those that its accounts are in. -/
def groupsOver (model : Snapshot) (s : Session) : Names :=
  let listed : Names := match model.groups with
    | some groups => Roster.ofList groups
    | none => s.groups
  (model.accountsOver s).members.foldl (fun groups a => groups.union a.groups) listed

/-- The user of a snapshot. Without one the acting user stays if the accounts have him. -/
def usernameOver (model : Snapshot) (s : Session) : String :=
  match model.username with
  | some "" | none => if (model.accountsOver s).contains s.username then s.username else "user"
  | some username => username

/-- The directory of a snapshot, or else the home of its user. -/
def cwdFor (model : Snapshot) (account : Account) : String :=
  match model.cwd with
  | some "" | none => account.home
  | some cwd => cwd

end Snapshot

namespace Session

def adopt (blob : Json) : Update Unit := do
  let s ← Update.session
  match Snapshot.read blob with
  | .error defect => refuse (.badSnapshot defect)
  | .ok model =>
    let username := model.usernameOver s
    match (model.accountsOver s).find? username with
    | none => refuse (.badSnapshot (.noSuchSession username))
    | some account =>
      Update.write fun s =>
        { s with root := model.tree.toNode, accounts := model.accountsOver s, groups := model.groupsOver s,
                 username := username, elevations := [] }
      let cwd := model.cwdFor account
      Update.write fun s => { s with cwd := if s.isDirectory cwd then cwd else "/" }

def restore (s : Session) (blob : Json) : Except Fault Session := (adopt blob).after s

end Session

end VirtualShell
