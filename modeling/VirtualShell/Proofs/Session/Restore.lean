import VirtualShell.Proofs.Session.Holding
import VirtualShell.Proofs.Snapshot.Reading

/-!
# Going back to a session

Whatever session a snapshot is taken over in, what it describes is afterwards as it was in the whole session
that the snapshot was made of.
-/
namespace VirtualShell
set_option autoImplicit false

namespace Snapshot

variable {s : Session}

theorem accountsOver_ofSession (h : s.Whole) (t : Session) : (ofSession s).accountsOver t = s.accounts := by
  have hAccounts : (s.accounts.members.map UserDraft.ofAccount).map UserDraft.toAccount = s.accounts.members := by
    rw [List.map_map]
    exact (List.map_congr_left fun a ha => UserDraft.toAccount_ofAccount (h.named a ha)).trans (List.map_id _)
  show Roster.ofList ((s.accounts.members.map UserDraft.ofAccount).map UserDraft.toAccount) = _
  rw [hAccounts, Roster.ofList_members]

theorem groupsOver_ofSession (h : s.Whole) (t : Session) : (ofSession s).groupsOver t = s.groups := by
  have hAdd : ∀ accounts : List Account,
      (∀ a ∈ accounts, ∀ g, a.groups.contains g = true → s.groups.contains g = true) →
        accounts.foldl (fun groups a => groups.union a.groups) s.groups = s.groups := by
    intro accounts hKnown
    induction accounts with
    | nil => rfl
    | cons a accounts ih =>
      -- The groups of an account are known already, so that nothing is added.
      obtain ⟨ha, hRest⟩ := List.forall_mem_cons.mp hKnown
      rw [List.foldl_cons, Names.union_eq_self ha, ih hRest]
  rw [groupsOver, accountsOver_ofSession h]
  show s.accounts.members.foldl _ (Roster.ofList s.groups.members) = _
  rw [Roster.ofList_members]
  exact hAdd _ h.groups

theorem usernameOver_ofSession (h : s.Whole) (t : Session) : (ofSession s).usernameOver t = s.username := by
  have hUsername : s.username ≠ "" := by
    obtain ⟨a, ha, hName⟩ := Roster.contains_iff.mp h.user
    rw [← hName]
    exact (h.named a ha).username
  rw [usernameOver, ofSession]
  split
  · rename_i hEmpty
    exact absurd (Option.some.inj hEmpty) hUsername
  · rename_i hNone
    cases hNone
  · rename_i hSome
    exact (Option.some.inj hSome).symm

end Snapshot

namespace Session

def withSnapshotOf (t s : Session) : Session :=
  { t with root := s.root, accounts := s.accounts, groups := s.groups, username := s.username, cwd := s.cwd,
           elevations := [] }

/-- Whether a whole session with a tree that is not too deep can be gone back to depends on the path of its
working directory alone. -/
theorem restore_snapshot_eq_ok_iff {s t u : Session} (h : s.Whole) (hFits : s.root.Fits Snapshot.deepest) :
    t.restore s.snapshot = .ok u ↔ s.cwd.toList.head? = some '/' ∧ u = t.withSnapshotOf s := by
  have hAdopted : ∀ account, s.cwd.toList.head? = some '/' →
      t.adopted (Snapshot.ofSession s) account = t.withSnapshotOf s := by
    intro account hAbsolute
    have hTree : (Snapshot.ofSession s).tree.toNode = s.root := Draft.toNode_ofNode h.wellFormed
    have hSettled : t.settled (Snapshot.ofSession s) = { t.withSnapshotOf s with cwd := t.cwd } := by
      rw [settled, hTree, Snapshot.accountsOver_ofSession h, Snapshot.groupsOver_ofSession h,
        Snapshot.usernameOver_ofSession h]
      rfl
    have hCwd : (Snapshot.ofSession s).cwdFor account = s.cwd :=
      ((Snapshot.lawful_ofSession h).mpr hAbsolute).cwdFor_eq account
    have hDirectory : Session.isDirectory { t.withSnapshotOf s with cwd := t.cwd } s.cwd = true := h.directory
    rw [adopted, hSettled, hCwd, if_pos hDirectory]
    rfl
  rw [restore_eq_ok_iff]
  constructor
  · rintro ⟨model, account, hRead, -, rfl⟩
    obtain ⟨hDescribes, hLawful, -⟩ := Snapshot.read_eq_ok_iff.mp hRead
    rw [Snapshot.describes_unique hDescribes (Snapshot.describes_ofSession h)] at hLawful ⊢
    have hAbsolute := (Snapshot.lawful_ofSession h).mp hLawful
    exact ⟨hAbsolute, hAdopted account hAbsolute⟩
  · rintro ⟨hAbsolute, rfl⟩
    obtain ⟨account, hAccount⟩ := Option.isSome_iff_exists.mp h.user
    refine ⟨_, account, Snapshot.read_snapshot h hAbsolute hFits, ?_, (hAdopted account hAbsolute).symm⟩
    rw [Snapshot.accountsOver_ofSession h, Snapshot.usernameOver_ofSession h, hAccount]

end Session

end VirtualShell
