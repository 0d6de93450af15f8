import VirtualShell.Proofs.Session.Confidential
import VirtualShell.Proofs.Session.Ordering
import VirtualShell.Proofs.Session.Restore
import VirtualShell.Proofs.Shell.AccountTable

/-!
# Sessions that took over a snapshot

A session that took over a snapshot is whole, so whether it can be gone back to depends on the path of its working
directory alone. A path that the snapshot gives is absolute. The home of a user is gone to as it stands, and nobody
asks whether its path is absolute.
-/
namespace VirtualShell
set_option autoImplicit false

namespace Session

variable {s t u : Session} {model : Snapshot} {account : Account} {blob : Json} {marks : List Mark}

/-- The session is where the snapshot leads, or at the root of the tree. -/
theorem cwd_adopted_cases (h : model.Lawful) (account : Account) :
    ((s.adopted model account).cwd = model.cwd.getD account.home ∧
      (s.adopted model account).isDirectory (model.cwd.getD account.home) = true) ∨
    (s.adopted model account).cwd = "/" := by
  rw [← h.cwdFor_eq account]
  by_cases hDirectory : (s.settled model).isDirectory (model.cwdFor account) = true
  · exact .inl ⟨if_pos hDirectory, hDirectory⟩
  · exact .inr (if_neg hDirectory)

theorem isDirectory_adopted (h : model.Lawful) :
    (s.adopted model account).isDirectory (s.adopted model account).cwd = true := by
  rcases cwd_adopted_cases (s := s) h account with ⟨hCwd, hDirectory⟩ | hCwd
  · rw [hCwd, hDirectory]
  · rw [hCwd]
    exact Node.kind_eq_dir_iff.mp ((Draft.kind_toNode model.tree).trans h.root.1)

theorem Lived.whole (h : Lived marks s) (hRestore : s.restore blob = .ok t) : t.Whole := by
  have hEnrolled := h.enrolled.restore hRestore
  obtain ⟨model, account, ⟨fields, rfl, hFields⟩, hLawful, -, -, rfl⟩ := adopted_of_restore hRestore
  obtain ⟨j, -, hTree⟩ := hFields.tree
  exact ⟨hLawful.nodes.wellFormed_toNode hTree, (Draft.name_toNode model.tree).trans hLawful.root.2,
    isDirectory_adopted hLawful, hEnrolled.user, hEnrolled.named, hEnrolled.groups⟩

theorem Lived.ordered (h : Lived marks s) : s.root.Everywhere Node.Ordered := by
  induction h with
  | start hFresh => exact (Reached.start hFresh).inv.sound.tree.wellFormed.everywhere_ordered
  | wait now _ ih => exact ih
  | operate o _ ih => exact ordered_apply ih o
  | @login marks s t username name _ hRun ih =>
    obtain ⟨-, -, rfl⟩ := (switchUser_ends s username).answer _ _ hRun
    exact ih
  | restore h hRestore => exact (h.whole hRestore).wellFormed.everywhere_ordered
  | reject blob _ hFail ih =>
    rw [adopt_unchanged hFail]
    exact ih
  | enter _ ih => exact ih
  | leave _ ih =>
    rw [root_leave]
    exact ih
  | leaveCutOff mark _ ih =>
    rw [root_leave]
    exact ih

/-- So it is whatever snapshots a session took over, unless it stands in the root and calls it otherwise. -/
theorem Lived.keeps_secret {ps : List String} (h : Lived marks s) (hCwd : s.Rooted) (hClosed : s.Unreadable ps)
    (text : String) : (∀ o, s.Echoes text (some ps) o) ∧
      (∀ start f, (s.refill text (some ps)).find start f = s.find start f) ∧
      ∀ pattern paths options,
        (s.refill text (some ps)).grep pattern paths options = s.grep pattern paths options :=
  ⟨echoes hClosed h.ordered hCwd text, find_refill (hClosed.hides h.ordered), grep_refill (hClosed.hides h.ordered)⟩

/-- The tree is no deeper than the one that there was room for. -/
theorem fits_restored (hRestore : s.restore blob = .ok t) : t.root.Fits Snapshot.deepest := by
  obtain ⟨model, account, -, hLawful, hFits, -, rfl⟩ := adopted_of_restore hRestore
  exact hLawful.nodes.fits_toNode.mpr hFits

theorem withSnapshotOf_self (h : t.elevations = []) : t.withSnapshotOf t = t := by
  rw [withSnapshotOf, ← h]

/-- The session is in a directory, and can be gone back to just when that has an absolute path. So it has if the
snapshot gives it, and it has a canonical one if the path in the snapshot, or that of the home, is canonical. -/
theorem Lived.restorable (h : Lived marks s) (hRestore : s.restore blob = .ok t) :
    t.isDirectory t.cwd = true ∧
      (∀ u, t.restore t.snapshot = .ok u ↔ t.cwd.toList.head? = some '/' ∧ u = t) ∧
      ∃ (model : Snapshot) (account : Account), model.Describes blob ∧
        t.accounts.find? t.username = some account ∧
        (model.cwd.isSome = true → t.restore t.snapshot = .ok t) ∧
        (Path.isCanonical (model.cwd.getD account.home) = true →
          Path.isCanonical t.cwd = true ∧ t.restore t.snapshot = .ok t) := by
  have hWhole := h.whole hRestore
  have hAgain : ∀ u, t.restore t.snapshot = .ok u ↔ t.cwd.toList.head? = some '/' ∧ u = t := by
    intro u
    rw [restore_snapshot_eq_ok_iff hWhole (fits_restored hRestore),
      withSnapshotOf_self (h.enrolled.restore hRestore).elevations]
  obtain ⟨model, account, hDescribes, hLawful, -, hAccount, rfl⟩ := adopted_of_restore hRestore
  refine ⟨hWhole.directory, hAgain, model, account, hDescribes, hAccount, fun hGiven => ?_, fun hCanonical => ?_⟩
  · obtain ⟨cwd, hCwd⟩ := Option.isSome_iff_exists.mp hGiven
    refine (hAgain _).mpr ⟨?_, rfl⟩
    rw [cwd_adopted hLawful hCwd]
    exact hLawful.absolute hCwd
  · have hPath : Path.isCanonical (s.adopted model account).cwd = true := by
      rcases cwd_adopted_cases (s := s) hLawful account with ⟨hCwd, -⟩ | hCwd
      · rwa [hCwd]
      · rw [hCwd]
        rfl
    exact ⟨hPath, (hAgain _).mpr ⟨Path.absolute_of_isCanonical hPath, rfl⟩⟩

def lodger (home : String) : Json :=
  .object [("tree", folder "/" [folder "home" [folder "bob" []]]), ("username", .string "bob"),
    ("users", .array [.object [("username", .string "bob"), ("primary_group", .string "bob"),
      ("home", .string home)]])]

theorem restorable_from_home : ∃ (s t : Session) (model : Snapshot) (account : Account),
    Session.fresh? "user" 0.0 = some s ∧ s.restore (lodger "/home/bob") = .ok t ∧
      t.cwd = "/home/bob" ∧ t.isDirectory t.cwd = true ∧
      (∀ u, t.restore t.snapshot = .ok u ↔ t.cwd.toList.head? = some '/' ∧ u = t) ∧
      model.Describes (lodger "/home/bob") ∧ t.accounts.find? t.username = some account ∧
      (model.cwd.isSome = true → t.restore t.snapshot = .ok t) ∧
      (Path.isCanonical (model.cwd.getD account.home) = true →
        Path.isCanonical t.cwd = true ∧ t.restore t.snapshot = .ok t) := by
  have hRun : (Session.fresh? "user" 0.0).map (fun s => (s.restore (lodger "/home/bob")).toOption.map Session.cwd) =
      some (some "/home/bob") := by
    decide +kernel
  obtain ⟨s, hFresh, hRun⟩ := Option.map_eq_some_iff.mp hRun
  obtain ⟨t, hRestore, hCwd⟩ := Option.map_eq_some_iff.mp hRun
  have hRestore := Result.toOption_eq_some_iff.mp hRestore
  obtain ⟨hDirectory, hAgain, model, account, hModel⟩ := (Lived.start hFresh).restorable hRestore
  exact ⟨s, t, model, account, hFresh, hRestore, hCwd, hDirectory, hAgain, hModel⟩

/-- With a home whose path is not absolute the session cannot be gone back to. -/
theorem not_restorable_from_relative_home : ¬∀ (marks : List Mark) (s t : Session) (blob : Json), Lived marks s →
    s.restore blob = .ok t →
      Path.isCanonical t.cwd = true ∧ t.isDirectory t.cwd = true ∧ ∃ u, t.restore t.snapshot = .ok u := by
  intro h
  have hRun : (Session.fresh? "user" 0.0).map (fun s => (s.restore (lodger "home/bob")).toOption.map fun t =>
      (t.cwd, (t.restore t.snapshot).toOption.isSome)) = some (some ("home/bob", false)) := by
    decide +kernel
  obtain ⟨s, hFresh, hRun⟩ := Option.map_eq_some_iff.mp hRun
  obtain ⟨t, hRestore, hRun⟩ := Option.map_eq_some_iff.mp hRun
  obtain ⟨-, hFails⟩ := Prod.mk.inj hRun
  obtain ⟨-, -, u, hAgain⟩ := h [] s t _ (.start hFresh) (Result.toOption_eq_some_iff.mp hRestore)
  rw [hAgain] at hFails
  cases hFails

end Session

end VirtualShell
