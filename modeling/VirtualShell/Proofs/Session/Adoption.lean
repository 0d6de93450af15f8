import VirtualShell.Proofs.Roster
import VirtualShell.Proofs.Session.Outcome
import VirtualShell.Session.Restore

/-!
# What a restore makes of a session

A snapshot that is taken over was read, and its user has an account. What the session is afterwards depends
on the snapshot and, where it leaves something out, on the session before.
-/
namespace VirtualShell
set_option autoImplicit false

namespace Snapshot

theorem contains_foldl_union (accounts : List Account) (groups : Names) (g : String) :
    (accounts.foldl (fun groups a => groups.union a.groups) groups).contains g =
      (groups.contains g || accounts.any fun a => a.groups.contains g) := by
  induction accounts generalizing groups with
  | nil => simp
  | cons a accounts ih => rw [List.foldl_cons, ih, Roster.contains_union, List.any_cons, Bool.or_assoc]

theorem contains_groupsOver {m : Snapshot} {s : Session} {a : Account} {g : String}
    (ha : a ∈ (m.accountsOver s).members) (hg : a.groups.contains g = true) : (m.groupsOver s).contains g = true := by
  rw [groupsOver, contains_foldl_union, Bool.or_eq_true, List.any_eq_true]
  exact .inr ⟨a, ha, hg⟩

/-- An account is one of the snapshot, or one of the session if the snapshot has none. -/
theorem of_mem_accountsOver {m : Snapshot} {s : Session} {a : Account} (ha : a ∈ (m.accountsOver s).members) :
    (∃ users u, m.users = some users ∧ u ∈ users ∧ a = u.toAccount) ∨ a ∈ s.accounts.members := by
  rw [accountsOver] at ha
  split at ha
  · rename_i users hUsers
    obtain ⟨u, hu, rfl⟩ := List.mem_map.mp (Roster.of_mem_ofList ha)
    exact .inl ⟨users, u, hUsers, hu, rfl⟩
  · exact .inr ha

end Snapshot

namespace Session

def settled (s : Session) (model : Snapshot) : Session :=
  { s with root := model.tree.toNode, accounts := model.accountsOver s, groups := model.groupsOver s,
           username := model.usernameOver s, elevations := [] }

def adopted (s : Session) (model : Snapshot) (account : Account) : Session :=
  { s.settled model with
    cwd := if (s.settled model).isDirectory (model.cwdFor account) then model.cwdFor account else "/" }

variable {s t : Session} {blob : Json} {model : Snapshot} {account : Account}

open Update

theorem adopt_ends (s : Session) (blob : Json) : (adopt blob).Ends s fun _ t =>
    ∃ model account, Snapshot.read blob = .ok model ∧
      (model.accountsOver s).find? (model.usernameOver s) = some account ∧ t = s.adopted model account := by
  unfold adopt
  apply ends_session_bind
  split
  · exact ends_error _
  · rename_i model hRead
    dsimp only
    split
    · exact ends_error _
    · rename_i account hAccount
      exact ends_write_bind (returns_write ⟨model, account, hRead, hAccount, rfl⟩)

theorem adopt_adopted (hRead : Snapshot.read blob = .ok model)
    (hAccount : (model.accountsOver s).find? (model.usernameOver s) = some account) :
    (adopt blob).Returns s fun _ t => t = s.adopted model account := by
  unfold adopt
  apply returns_session_bind
  rw [hRead]
  dsimp only
  rw [hAccount]
  exact returns_write_bind (returns_write rfl)

/-- A snapshot is taken over as a whole or not at all. -/
theorem adopt_unchanged {fault : Fault} (h : ((adopt blob).run s).1 = .error fault) : ((adopt blob).run s).2 = s :=
  (adopt_ends s blob).unchanged fault _ (Prod.ext h rfl)

theorem restore_eq_ok_iff : s.restore blob = .ok t ↔ ∃ model account, Snapshot.read blob = .ok model ∧
    (model.accountsOver s).find? (model.usernameOver s) = some account ∧ t = s.adopted model account := by
  rw [restore, Update.after]
  constructor
  · intro h
    split at h
    · rename_i hRun
      cases h
      exact (adopt_ends s blob).answer _ _ hRun
    · cases h
  · rintro ⟨model, account, hRead, hAccount, rfl⟩
    obtain ⟨_, t, hRun, rfl⟩ := adopt_adopted hRead hAccount
    rw [hRun]

end Session

end VirtualShell
