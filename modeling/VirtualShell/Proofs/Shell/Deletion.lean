import VirtualShell.Proofs.Session.Removal
import VirtualShell.Proofs.Shell.Restored

/-!
# Deleting an account with its home

The account is erased before its home is taken out of the tree. A home may be written in any way in a snapshot, and the
checks before the deletion compare texts: to them a home of two slashes is not the root, and no session is inside of
a home with a slash at its end. In the first case the deletion fails and the account is gone all the same, in the
second one the session may be left in a directory that is gone.
-/
namespace VirtualShell.Session
set_option autoImplicit false

open Update

/-- `t` is the session `s` in the same directory of a tree without the home. -/
structure Evicted (s : Session) (home : List String) (t : Session) : Prop where
  gone : ∀ rest, t.root.get? (home ++ rest) = none
  elsewhere : ∀ qs, ¬home <+: qs → t.root.kindAt qs = s.root.kindAt qs
  cwd : t.cwd = s.cwd

variable {s t u : Session} {home username : String} {account : Account} {present : Bool}

theorem Evicted.isDirectory_cwd_iff {place : List String} (h : s.Evicted place t)
    (hCwd : s.isDirectory s.cwd = true) : t.isDirectory t.cwd = true ↔ ¬place <+: Path.split s.cwd := by
  rw [isDirectory_eq, Node.isDirAt_iff_kindAt, h.cwd]
  rw [isDirectory_eq, Node.isDirAt_iff_kindAt] at hCwd
  constructor
  · rintro hDir ⟨rest, hInside⟩
    rw [← hInside, Node.kindAt, h.gone] at hDir
    cases hDir
  · intro hOutside
    rw [h.elsewhere _ hOutside]
    exact hCwd

theorem evicted_of_absent (h : s.lookup home = none) (hRoot : t.root = s.root) (hCwd : t.cwd = s.cwd) :
    s.Evicted (Path.split home) t := by
  refine ⟨fun rest => ?_, fun qs _ => by rw [hRoot], hCwd⟩
  rw [lookup] at h
  rw [hRoot, Node.get?_append, h, Option.bind_none]

theorem evicted_detached (h : Path.split home ≠ []) (hOutside : Path.isWithin s.cwd home = false) :
    s.Evicted (Path.split home) (s.detached home) := by
  obtain ⟨hGone, hElsewhere⟩ := takenOut_detached h
  refine ⟨hGone, fun qs hqs => (hElsewhere qs hqs).kindAt_eq, ?_⟩
  rw [detached, stepOut, cwd_removeEntry, if_neg (by simp [hOutside]), cwd_removeEntry]

theorem TreeSound.detach_fails (h : s.TreeSound) (hHome : Path.split home = []) :
    ∃ fault, (detach home).run s = (.error fault, s) := by
  refine (detach_ends s home).fails ?_
  rintro _ _ ⟨⟨e, he⟩, -⟩
  have hTop : s.lookup (Path.parentOf home) = some s.root := by
    rw [lookup, Path.split_parentOf, hHome]
    rfl
  rw [hTop, Option.bind_some] at he
  have hName : e.name = "/" := by
    rw [Node.name_of_child? he, Path.baseName, hHome]
    rfl
  -- no entry has the name of the root
  have hPart := h.wellFormed.isPart_name (Node.mem_of_child? he)
  rw [hName] at hPart
  revert hPart
  decide

theorem Evicted.dropOwnGroup {place : List String} (h : s.Evicted place t) (account : Account) :
    s.Evicted place (t.dropOwnGroup account) := by
  rcases dropOwnGroup_eq t account with hSame | hDropped
  · rwa [hSame]
  · rw [hDropped]
    exact ⟨h.gone, h.elsewhere, h.cwd⟩

/-- Once an account is erased, its home is taken out of the tree, unless it is the root under another name. -/
theorem TreeSound.detachHome_run (h : s.TreeSound) (hDeletable : s.deletable username true = .ok (account, present)) :
    ((detachHome account present).Returns { s with accounts := s.accounts.erase username } fun _ t =>
      s.Evicted (Path.split account.home) t ∧ t.accounts = s.accounts.erase username) ∨
    Path.split account.home = [] ∧ ∃ fault,
      (detachHome account present).run { s with accounts := s.accounts.erase username } =
        (.error fault, { s with accounts := s.accounts.erase username }) := by
  obtain ⟨-, -, -, -, -, hPresent, hOutside⟩ := deletable_ok hDeletable
  rw [Bool.true_and] at hPresent
  generalize hErased : { s with accounts := s.accounts.erase username } = u
  have hRoot : u.root = s.root := by rw [← hErased]
  have hCwd : u.cwd = s.cwd := by rw [← hErased]
  have hAccounts : u.accounts = s.accounts.erase username := by rw [← hErased]
  cases present with
  | false =>
    rw [detachHome, if_neg Bool.false_ne_true]
    rw [eq_comm, Option.isSome_eq_false_iff, Option.isNone_iff_eq_none] at hPresent
    exact .inl (returns_pure ⟨evicted_of_absent hPresent hRoot hCwd, hAccounts⟩)
  | true =>
    rw [detachHome, if_pos rfl]
    by_cases hHome : Path.split account.home = []
    · exact .inr ⟨hHome, (h.of_tree_eq hRoot hCwd).detach_fails hHome⟩
    · obtain ⟨e, he⟩ := Option.isSome_iff_exists.mp hPresent.symm
      have hEntry : u.lookup account.home = some e := by rwa [lookup, hRoot]
      have hEvicted := evicted_detached hHome (hCwd ▸ hOutside rfl)
      refine .inl ((detach_returns ((lookup_entry hHome).trans hEntry)).mono ?_)
      rintro _ _ rfl
      refine ⟨⟨hEvicted.gone, fun qs hqs => ?_, hEvicted.cwd.trans hCwd⟩, ?_⟩
      · rw [hEvicted.elsewhere qs hqs, hRoot]
      · rw [(sameIdentity_detached u account.home).accounts, hAccounts]

theorem TreeSound.not_within_home (h : s.TreeSound) (hDeletable : s.deletable username true = .ok (account, present))
    (hCanonical : Path.isCanonical account.home = true) : ¬Path.split account.home <+: Path.split s.cwd := by
  obtain ⟨-, -, -, -, -, hPresent, hOutside⟩ := deletable_ok hDeletable
  rw [Bool.true_and] at hPresent
  cases present with
  | false =>
    rw [eq_comm, Option.isSome_eq_false_iff, Option.isNone_iff_eq_none] at hPresent
    have hCwd : s.root.kindAt (Path.split s.cwd) ≠ none := by
      rw [Node.isDirAt_iff_kindAt.mp h.directory]
      exact Option.some_ne_none _
    exact Node.not_prefix_of_kindAt hCwd (Option.map_eq_none_iff.mpr hPresent)
  | true =>
    intro hInside
    cases (hOutside rfl).symm.trans ((Path.isWithin_iff_split h.canonical hCanonical).mpr hInside)

/-- An account goes with its home, and the session stays in a directory unless that was in the home. Otherwise nothing
changes, but for a home that is the root under another name. -/
theorem TreeSound.deleteUser_home (h : s.TreeSound) (username : String) :
    (∀ answer t, (deleteUser username true).run s = (.ok answer, t) →
      ∃ account, s.accounts.find? username = some account ∧ t.accounts.find? username = none ∧
        s.Evicted (Path.split account.home) t ∧
        (t.isDirectory t.cwd = true ↔ ¬Path.split account.home <+: Path.split s.cwd) ∧
        (Path.isCanonical account.home = true → t.isDirectory t.cwd = true)) ∧
    ∀ fault t, (deleteUser username true).run s = (.error fault, t) →
      t = s ∨ ∃ account, s.accounts.find? username = some account ∧ Path.split account.home = [] ∧
        account.home ≠ "/" ∧ account.home ≠ "" ∧ t = { s with accounts := s.accounts.erase username } := by
  rw [run_deleteUser]
  cases hDeletable : s.deletable username true with
  | error fault =>
    refine ⟨fun answer t hRun => (nomatch hRun), fun fault' t hRun => ?_⟩
    cases hRun
    exact .inl rfl
  | ok found =>
    obtain ⟨account, present⟩ := found
    obtain ⟨-, hFound, -, -, hProtected, -, -⟩ := deletable_ok hDeletable
    dsimp only
    rcases h.detachHome_run hDeletable with ⟨_, v, hRun, hEvicted, hAccounts⟩ | ⟨hHome, fault, hRun⟩
    · rw [hRun]
      refine ⟨fun answer t hEnd => ?_, fun fault t hEnd => (nomatch hEnd)⟩
      cases hEnd
      have hEvicted := hEvicted.dropOwnGroup account
      have hDirectory := hEvicted.isDirectory_cwd_iff h.directory
      refine ⟨account, hFound, ?_, hEvicted, hDirectory, fun hCanonical => hDirectory.mpr ?_⟩
      · rw [accounts_dropOwnGroup, hAccounts, Roster.find?_erase, if_pos rfl]
      · exact h.not_within_home hDeletable hCanonical
    · -- the account is erased by now, and nothing puts it back
      rw [hRun]
      refine ⟨fun answer t hEnd => (nomatch hEnd), fun fault' t hEnd => ?_⟩
      cases hEnd
      obtain ⟨hSlash, hEmpty⟩ := hProtected rfl
      exact .inr ⟨account, hFound, hHome, hSlash, hEmpty, rfl⟩

def landlord (cwd home : String) : Json :=
  let user (name home : String) : Json :=
    .object [("username", .string name), ("primary_group", .string name), ("home", .string home)]
  .object [("tree", folder "/" [folder "home" [folder "bob" []]]), ("cwd", .string cwd),
    ("username", .string "root"), ("users", .array [user "root" "/", user "bob" home])]

theorem treeSound_of_restore {marks : List Mark} {blob : Json} (h : Lived marks s) (hRestore : s.restore blob = .ok t)
    (hCwd : Path.isCanonical t.cwd = true) : t.TreeSound := by
  have hWhole := h.whole hRestore
  exact ⟨hWhole.wellFormed, hWhole.name, hCwd, hWhole.directory⟩

/-- A home that is not canonical goes with its account all the same. -/
theorem home_deleted : ∃ s t u : Session, Session.fresh? "user" 0.0 = some s ∧
    s.restore (landlord "/" "/home//bob/") = .ok t ∧ t.TreeSound ∧
    (deleteUser "bob" true).run t = (.ok "bob", u) ∧ u.accounts.find? "bob" = none ∧
    t.Evicted ["home", "bob"] u ∧ u.isDirectory u.cwd = true := by
  have hRun : (Session.fresh? "user" 0.0).map (fun s => (s.restore (landlord "/" "/home//bob/")).toOption.map fun t =>
      (t.cwd, (t.accounts.find? "bob").map Account.home, ((deleteUser "bob" true).run t).1.toOption)) =
      some (some ("/", some "/home//bob/", some "bob")) := by
    decide +kernel
  obtain ⟨s, hFresh, hRun⟩ := Option.map_eq_some_iff.mp hRun
  obtain ⟨t, hRestore, hRun⟩ := Option.map_eq_some_iff.mp hRun
  simp only [Prod.mk.injEq] at hRun
  obtain ⟨hCwd, hHome, hOk⟩ := hRun
  have hRestore := Result.toOption_eq_some_iff.mp hRestore
  have hSound : t.TreeSound := treeSound_of_restore (.start hFresh) hRestore (by rw [hCwd]; decide)
  obtain ⟨u, hEnd⟩ := exists_run_eq hOk
  obtain ⟨account, hFound, hErased, hEvicted, hDirectory, -⟩ := (hSound.deleteUser_home "bob").1 _ u hEnd
  have hSplit : Path.split account.home = ["home", "bob"] := by
    rw [hFound, Option.map_some, Option.some_inj] at hHome
    rw [hHome]
    decide
  rw [hSplit] at hEvicted hDirectory
  refine ⟨s, t, u, hFresh, hRestore, hSound, hEnd, hErased, hEvicted, hDirectory.mpr ?_⟩
  rw [hCwd]
  decide

/-- An account whose home is written as two slashes is gone after a deletion that has failed. -/
theorem not_deleteUser_atomic : ¬∀ (s t : Session) (blob : Json) (username : String), s.restore blob = .ok t →
    t.subject.isAdmin = true → Path.isCanonical t.cwd = true → t.isDirectory t.cwd = true →
    (∃ answer u account, (deleteUser username true).run t = (.ok answer, u) ∧
      t.accounts.find? username = some account ∧ u.accounts.find? username = none ∧
      (∀ rest, u.root.get? (Path.split account.home ++ rest) = none) ∧ u.isDirectory u.cwd = true) ∨
    ∃ fault, (deleteUser username true).run t = (.error fault, t) := by
  intro h
  have hRun : (Session.fresh? "user" 0.0).map (fun s => (s.restore (landlord "/" "//")).toOption.map fun t =>
      (t.cwd, t.subject.isAdmin, t.accounts.contains "bob",
        ((deleteUser "bob" true).run t).1.toOption.isSome,
        ((deleteUser "bob" true).run t).2.accounts.contains "bob")) =
      some (some ("/", true, true, false, false)) := by
    decide +kernel
  obtain ⟨s, hFresh, hRun⟩ := Option.map_eq_some_iff.mp hRun
  obtain ⟨t, hRestore, hRun⟩ := Option.map_eq_some_iff.mp hRun
  simp only [Prod.mk.injEq] at hRun
  obtain ⟨hCwd, hAdmin, hThere, hFails, hGone⟩ := hRun
  have hRestore := Result.toOption_eq_some_iff.mp hRestore
  have hSound : t.TreeSound := treeSound_of_restore (.start hFresh) hRestore (by rw [hCwd]; decide)
  rcases h s t _ "bob" hRestore hAdmin hSound.canonical hSound.directory with ⟨answer, u, -, hEnd, -⟩ | ⟨fault, hEnd⟩
  · rw [hEnd] at hFails
    cases hFails
  · rw [hEnd] at hGone
    exact Bool.false_ne_true (hGone.symm.trans hThere)

-- With a slash at its end the home is not found to be in use, and the session is left in nothing.
example : (Session.fresh? "user" 0.0).map (fun s =>
    (s.restore (landlord "/home/bob" "/home/bob/")).toOption.map fun t =>
      let u := ((deleteUser "bob" true).run t).2
      (u.accounts.contains "bob", u.cwd, u.isDirectory u.cwd)) = some (some (false, "/home/bob", false)) := by
  decide +kernel

end VirtualShell.Session
