import VirtualShell.Proofs.Session.Adoption
import VirtualShell.Proofs.Snapshot.Accepting
import VirtualShell.Proofs.Snapshot.Growing
import VirtualShell.Setup

/-!
# What a session holds after a restore

Of a snapshot that is accepted no node is lost on its way into the session, and the session is in the directory
that the snapshot gives. A snapshot that gives none leads to the home of its user, whatever path that is.
-/
namespace VirtualShell
set_option autoImplicit false

namespace Snapshot

variable {m : Snapshot} {cwd : String}

theorem Lawful.absolute (h : m.Lawful) (hCwd : m.cwd = some cwd) : cwd.toList.head? = some '/' := (h.cwd cwd hCwd).1

/-- An empty path is not given. -/
theorem Lawful.cwdFor_eq (h : m.Lawful) (account : Account) : m.cwdFor account = m.cwd.getD account.home := by
  rw [cwdFor]
  split
  · rename_i hEmpty
    cases h.absolute hEmpty
  · rename_i hNone
    rw [hNone, Option.getD_none]
  · rename_i hSome
    rw [hSome, Option.getD_some]

end Snapshot

namespace Session

variable {s t : Session} {d : Draft} {j blob : Json} {model : Snapshot} {account : Account}

theorem isDirectory_settled (h : model.Lawful) {cwd : String} (hCwd : model.cwd = some cwd) :
    (s.settled model).isDirectory cwd = true :=
  h.nodes.leadsThrough_iff.mp (h.cwd cwd hCwd).2

theorem cwd_adopted (h : model.Lawful) {cwd : String} (hCwd : model.cwd = some cwd) :
    (s.adopted model account).cwd = cwd := by
  -- The reader has followed the path already, and the tree leads the same way.
  show (if (s.settled model).isDirectory (model.cwdFor account) then model.cwdFor account else "/") = cwd
  rw [h.cwdFor_eq, hCwd, Option.getD_some, if_pos (isDirectory_settled h hCwd)]

/-- A session after a restore is one that adopted what the snapshot describes, with the account of its user. -/
theorem adopted_of_restore (h : s.restore blob = .ok t) :
    ∃ model account, model.Describes blob ∧ model.Lawful ∧ model.tree.Fits Snapshot.deepest ∧
      (model.accountsOver s).find? (model.usernameOver s) = some account ∧ t = s.adopted model account := by
  obtain ⟨model, account, hRead, hAccount, hEnd⟩ := restore_eq_ok_iff.mp h
  obtain ⟨hDescribes, hLawful, hFits⟩ := Snapshot.read_eq_ok_iff.mp hRead
  exact ⟨model, account, hDescribes, hLawful, hFits, hAccount, hEnd⟩

def folder (name : String) (children : List Json) : Json :=
  .object [("name", .string name), ("type", .string "dir"), ("permissions", .string "rwxr-xr-x"),
    ("owner", .string "bob"), ("group", .string "bob"), ("children", .array children)]

end Session

end VirtualShell
