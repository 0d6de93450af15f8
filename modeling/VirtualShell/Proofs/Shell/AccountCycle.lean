import VirtualShell.Proofs.Session.Strangers
import VirtualShell.Proofs.Shell.Deletion

/-!
# An account that is added and deleted again

An account that is deleted right after it was added takes with it all that came with it: itself, its group and its home
directory. The group goes by its name, be it one that was there before: it stays for those who are in it, and a group
that nobody is in goes too.
-/
namespace VirtualShell.Session
set_option autoImplicit false

open Update

variable {marks : List Mark} {s t : Session} {username : String} {groups : List String} {account : Account}
  {later : Float}

/-- Nobody but the administrator acts, or is returned to, without an account. -/
theorem Lived.stranger (h : Lived marks s) {username : String} (hStranger : s.Stranger username) :
    username = adminName := by
  induction h with
  | start hFresh =>
    obtain ⟨-, hAccounts⟩ := (Reached.start hFresh).inv.sound
    refine absurd hStranger (not_stranger_iff.mpr fun hActive => ?_)
    rcases List.mem_cons.mp hActive with rfl | hWaiting
    · exact hAccounts.user
    · exact hAccounts.elevations username hWaiting
  | wait now _ ih => exact ih hStranger
  | operate o _ ih => exact ih (stranger_of_apply o hStranger)
  | @login marks s t name answer _ hRun ih =>
    have hSwitch : Enrolments s t := by
      have hSteps := enrols_switchUser name s
      rwa [hRun] at hSteps
    exact ih (Enrolments.stranger hSwitch (stranger_of_same (sameIdentity_goHome t).toSameUsers hStranger))
  | restore h hRestore =>
    have hEnrolled := h.enrolled.restore hRestore
    refine absurd hStranger (not_stranger_iff.mpr fun hActive => ?_)
    rw [hEnrolled.elevations] at hActive
    rw [List.mem_singleton.mp hActive]
    exact hEnrolled.user
  | reject blob _ hFail ih =>
    rw [adopt_unchanged hFail] at hStranger
    exact ih hStranger
  | enter _ ih =>
    rcases stranger_of_enter hStranger with hAdmin | hBefore
    · exact hAdmin
    · exact ih hBefore
  | leave h ih => exact ih (stranger_of_leave h.enrolled.elevations hStranger)
  | leaveCutOff mark h ih =>
    rw [h.enrolled.leaveElevation_cutOff mark] at hStranger
    exact ih hStranger

theorem requireAdmin_eq_ok_iff {command : String} : s.requireAdmin command = .ok () ↔ s.username = adminName := by
  rw [requireAdmin, Subject.isAdmin, subject_username]
  by_cases hAdmin : s.username = adminName
  · simp [hAdmin]
  · simp [hAdmin, refuse]

/-- An account whose user is neither the administrator nor active may be deleted, with a home that nobody is in. -/
theorem deletable_home (hAdmin : s.username = adminName) (hFound : s.accounts.find? username = some account)
    (hOther : username ≠ adminName) (hInactive : s.activeUsers.contains username = false) (hRoot : account.home ≠ "/")
    (hHome : account.home ≠ "") (hThere : (s.lookup account.home).isSome = true)
    (hOutside : Path.isWithin s.cwd account.home = false) : s.deletable username true = .ok (account, true) := by
  unfold deletable
  rw [requireAdmin_eq_ok_iff.mpr hAdmin, hFound]
  simp [hOther, hInactive, hRoot, hHome, hThere, hOutside]

theorem dropOwnGroup_own (hOwn : account.primaryGroup = account.username) : s.dropOwnGroup account =
    { s with groups := if s.accounts.members.any (·.groups.contains account.username) then s.groups
                       else s.groups.erase account.username } := by
  unfold dropOwnGroup
  rw [hOwn, beq_self_eq_true, Bool.true_and]
  cases s.accounts.members.any (·.groups.contains account.username) <;> rfl

theorem detached_outside {ps : List String} {name : String} (hParts : Path.AreParts (ps ++ [name]))
    (hOutside : Path.isWithin s.cwd (Path.ofParts (ps ++ [name])) = false) :
    s.detached (Path.ofParts (ps ++ [name])) =
      { s with root := s.root.modify (fun m => (m.dropEntry name).touch s.now) ps } := by
  rw [detached, stepOut, cwd_removeEntry, if_neg (by simp [hOutside]), Path.parentOf_ofParts hParts,
    Path.baseName_ofParts hParts, List.dropLast_concat, removeEntry, modifyAt, Path.split_ofParts hParts.left]

/-- An account goes with its home, and with the group of its name unless somebody else is in that. -/
theorem run_deleteUser_home {ps : List String} {name : String}
    (hDeletable : s.deletable username true = .ok (account, true))
    (hHome : account.home = Path.ofParts (ps ++ [name])) (hParts : Path.AreParts (ps ++ [name]))
    (hOwn : account.primaryGroup = account.username) :
    (deleteUser username true).run s = (.ok username,
      { s with root := s.root.modify (fun m => (m.dropEntry name).touch s.now) ps,
               accounts := s.accounts.erase username,
               groups := if (s.accounts.erase username).members.any (·.groups.contains account.username) then s.groups
                         else s.groups.erase account.username }) := by
  obtain ⟨-, -, -, -, -, hPresent, hOutside⟩ := deletable_ok hDeletable
  have hOutside := hOutside rfl
  have hSplit : Path.split account.home ≠ [] := by
    rw [hHome, Path.split_ofParts hParts]
    simp
  obtain ⟨n, hn⟩ := Option.isSome_iff_exists.mp (by simpa using hPresent.symm)
  have hEntry : ({ s with accounts := s.accounts.erase username } : Session).lookup account.home = some n := hn
  obtain ⟨_, t, hRun, ht⟩ := detach_returns ((lookup_entry hSplit).trans hEntry)
  rw [hHome] at hOutside ht
  have hDetached := detached_outside (s := { s with accounts := s.accounts.erase username }) hParts hOutside
  rw [hDetached] at ht
  rw [run_deleteUser, hDeletable]
  dsimp only
  rw [detachHome, if_pos rfl, hRun]
  dsimp only
  rw [dropOwnGroup_own hOwn, ht]

theorem areParts_homes : Path.AreParts ["home"] := Path.AreParts.nil.cons (by decide)

theorem homes_eq : "/home" = Path.ofParts ["home"] := by decide

theorem addHome_free (hFree : s.root.get? ["home", username] = none) (group : String) :
    ∃ e : Node, e.name = username ∧ s.addHome username group =
      { s with root := s.root.modify (fun m => (m.putEntry e).touch s.now) ["home"] } := by
  have hNone : ¬((s.lookup "/home").bind (·.child? username)).isSome = true := by
    rw [homes_eq, lookup_ofParts areParts_homes, ← Node.get?_concat]
    simpa using hFree
  rw [addHome, if_neg hNone, addEntry, modifyAt, homes_eq, Path.split_ofParts areParts_homes]
  exact ⟨_, rfl, rfl⟩

def enlisted (s : Session) (account : Account) (home : Node) : Session :=
  { s with root := s.root.modify (fun m => (m.putEntry home).touch s.now) ["home"],
           accounts := s.accounts.insert account, groups := s.groups.add account.username }

/-- An account that is added without a word on its primary group, and has no home yet, gets both under its name. -/
theorem addUser_enlisted (hFree : s.root.get? ["home", username] = none)
    (hAdd : (addUser username groups none true).run s = (.ok account, t)) :
    s.username = adminName ∧ isAccountName username = true ∧ s.accounts.contains username = false ∧
      s.root.kindAt ["home"] = some .dir ∧ account.username = username ∧ account.primaryGroup = username ∧
      account.home = Path.ofParts (["home"] ++ [username]) ∧
      ∃ home : Node, home.name = username ∧ t = s.enlisted account home := by
  obtain ⟨hAdmin, hName, hNew, -, -, hDir, rfl, rfl⟩ := (addUser_ends s username groups none true).answer _ _ hAdd
  have hDir := hDir rfl
  rw [homes_eq, isDirectory_ofParts areParts_homes, Node.isDirAt_iff_kindAt] at hDir
  have hHome : (Account.create username username (Roster.ofList groups) ("/home/" ++ username)).home =
      Path.ofParts (["home"] ++ [username]) := by
    rw [Account.home_create (usualHome_ne username), usualHome_eq]
    rfl
  refine ⟨requireAdmin_eq_ok_iff.mp hAdmin, hName, hNew, hDir, rfl, rfl, hHome, ?_⟩
  exact addHome_free (s := { s with groups := s.groups.add username, accounts := s.accounts.insert _ }) hFree username

/-- Whoever has no account is not active, but perhaps the administrator. -/
theorem Lived.not_active (h : Lived marks s) (hOther : username ≠ adminName)
    (hUnknown : s.accounts.contains username = false) : s.activeUsers.contains username = false := by
  rw [activeUsers, Roster.contains_ofList, List.any_eq_false]
  intro user hActive hSame
  cases beq_iff_eq.mp hSame
  exact hOther (h.stranger ⟨hActive, hUnknown⟩)

theorem not_within_absent {ps : List String} (hParts : Path.AreParts ps) (hCwd : s.isDirectory s.cwd = true)
    (hFree : s.root.get? ps = none) : Path.isWithin s.cwd (Path.ofParts ps) = false := by
  rw [Bool.eq_false_iff]
  intro hInside
  have hThere : s.root.kindAt (Path.split s.cwd) ≠ none := by
    rw [Node.isDirAt_iff_kindAt.mp hCwd]
    exact Option.some_ne_none _
  exact Node.not_prefix_of_kindAt hThere (Option.map_eq_none_iff.mpr hFree) (Path.prefix_of_isWithin hParts hInside)

/-- The groups once one was added and, unless an account is in it, dropped again. -/
theorem Lived.groups_left (h : Lived marks s) (username : String) :
    ((s.groups.contains username = true → ∃ a ∈ s.accounts.members, a.groups.contains username = true) →
      (if s.accounts.members.any (·.groups.contains username) then s.groups.add username
        else (s.groups.add username).erase username) = s.groups) ∧
    ((∀ a ∈ s.accounts.members, a.groups.contains username = false) →
      (if s.accounts.members.any (·.groups.contains username) then s.groups.add username
        else (s.groups.add username).erase username) = s.groups.erase username) := by
  rw [Names.erase_add]
  constructor
  · intro hUsed
    split
    · rename_i hAny
      obtain ⟨a, ha, hIn⟩ := List.any_eq_true.mp hAny
      exact Names.add_eq_self (h.enrolled.groups a ha username hIn)
    · rename_i hNone
      refine Roster.erase_eq_self (Bool.eq_false_iff.mpr fun hKnown => hNone ?_)
      exact List.any_eq_true.mpr (hUsed hKnown)
  · intro hUnused
    rw [if_neg]
    rw [Bool.not_eq_true, List.any_eq_false]
    exact fun a ha => Bool.eq_false_iff.mp (hUnused a ha)

/-- An account is deleted right after it was added, be it later by the clock. Accounts and tree are then as they were,
but for the time of change of the directory of homes, and so are the groups, unless there was one of the name of the
account that nobody was in: that one is gone. The administrator, who may act without an account, is never deleted, and
no home is deleted that the session is in, as it may seem to be when it is in a directory that is gone. -/
theorem Lived.deleteUser_addUser (h : Lived marks s) (hCwd : s.isDirectory s.cwd = true) (hOther : username ≠ adminName)
    (hFree : s.root.get? ["home", username] = none)
    (hAdd : (addUser username groups none true).run s = (.ok account, t)) (later : Float) :
    ∃ kept, (deleteUser username true).run { t with now := later } = (.ok username,
        { s with root := s.root.modify (Node.touch later) ["home"], groups := kept, now := later }) ∧
      ((s.groups.contains username = true → ∃ a ∈ s.accounts.members, a.groups.contains username = true) →
        kept = s.groups) ∧
      ((∀ a ∈ s.accounts.members, a.groups.contains username = false) → kept = s.groups.erase username) := by
  obtain ⟨hAdmin, hName, hNew, hDir, hUsername, hPrimary, hHome, home, rfl, rfl⟩ := addUser_enlisted hFree hAdd
  have hParts : Path.AreParts (["home"] ++ [home.name]) := areParts_usualHome hName
  have hAdded : (s.enlisted account home).root.get? (["home"] ++ [home.name]) = some home :=
    Node.get?_put_below h.ordered home s.now hDir []
  have hOutside : Path.isWithin s.cwd (Path.ofParts (["home"] ++ [home.name])) = false :=
    not_within_absent hParts hCwd hFree
  have hErased : (s.accounts.insert account).erase home.name = s.accounts := by
    rw [← hUsername]
    exact Roster.erase_insert (hUsername.symm ▸ hNew)
  have hDeletable : ({ s.enlisted account home with now := later } : Session).deletable home.name true =
      .ok (account, true) := by
    refine deletable_home hAdmin ?_ hOther (h.not_active hOther hNew) ?_ ?_ ?_ ?_
    · exact (Roster.find?_insert s.accounts account home.name).trans (if_pos hUsername)
    · rw [hHome, Ne, Path.ofParts_eq_root hParts]
      simp
    · rw [hHome]
      exact Path.ne_empty_of_isCanonical (Path.isCanonical_ofParts hParts)
    · rw [hHome, lookup_ofParts hParts, hAdded]
      rfl
    · rw [hHome]
      exact hOutside
  rw [run_deleteUser_home hDeletable hHome hParts (hPrimary.trans hUsername.symm), enlisted]
  dsimp only
  rw [Node.drop_put h.ordered hFree, hErased, hUsername]
  exact ⟨_, rfl, h.groups_left home.name⟩

theorem deleted_alice : ∃ s account t kept, Session.fresh? "root" 0.0 = some s ∧ Lived [] s ∧
    s.isDirectory s.cwd = true ∧ "alice" ≠ adminName ∧ s.root.get? ["home", "alice"] = none ∧
    (addUser "alice" ["security"] none true).run s = (.ok account, t) ∧ s.groups.contains "alice" = false ∧
    (deleteUser "alice" true).run { t with now := 60.0 } = (.ok "alice",
      { s with root := s.root.modify (Node.touch 60.0) ["home"], groups := kept, now := 60.0 }) ∧
    kept = s.groups := by
  have hRun : (Session.fresh? "root" 0.0).map (fun s => (s.isDirectory s.cwd, (s.root.get? ["home", "alice"]).isNone,
      s.groups.contains "alice", ((addUser "alice" ["security"] none true).run s).1.toOption.isSome)) =
      some (true, true, false, true) := by
    decide +kernel
  obtain ⟨s, hFresh, hRun⟩ := Option.map_eq_some_iff.mp hRun
  simp only [Prod.mk.injEq] at hRun
  obtain ⟨hCwd, hFree, hNew, hAdd⟩ := hRun
  obtain ⟨account, hAdd⟩ := Option.isSome_iff_exists.mp hAdd
  obtain ⟨t, hAdd⟩ := exists_run_eq hAdd
  have hFree := Option.isNone_iff_eq_none.mp hFree
  obtain ⟨kept, hDeleted, hKept, -⟩ :=
    (Lived.start hFresh).deleteUser_addUser hCwd (by decide) hFree hAdd 60.0
  refine ⟨s, account, t, kept, hFresh, .start hFresh, hCwd, by decide, hFree, hAdd, hNew, hDeleted, hKept ?_⟩
  intro hKnown
  cases hKnown.symm.trans hNew

/-- An account that is added is deleted at once, and accounts and groups are as they were. -/
def Undone (s : Session) (username : String) : Prop :=
  ∀ account t, s.root.get? ["home", username] = none → (addUser username [] none true).run s = (.ok account, t) →
    ∃ u, (deleteUser username true).run t = (.ok username, u) ∧ u.accounts = s.accounts ∧ u.groups = s.groups

/-- What a run shows of an account that is added and deleted: that it may be added to a new home, and that it is then
not deleted, or else the group of its name is not what it was. -/
def leavesTrace (s : Session) (username : String) : Bool :=
  let (added, t) := (addUser username [] none true).run s
  let (deleted, u) := (deleteUser username true).run t
  (s.root.get? ["home", username]).isNone && added.toOption.isSome &&
    (deleted.toOption.isNone || u.groups.contains username != s.groups.contains username)

theorem not_undone_of_trace (h : s.leavesTrace username = true) : ¬s.Undone username := by
  intro hUndone
  unfold leavesTrace at h
  simp only [Bool.and_eq_true] at h
  obtain ⟨⟨hFree, hAdd⟩, hTrace⟩ := h
  obtain ⟨account, hAdd⟩ := Option.isSome_iff_exists.mp hAdd
  obtain ⟨t, hAdd⟩ := exists_run_eq hAdd
  obtain ⟨u, hDelete, -, hGroups⟩ := hUndone account t (Option.isNone_iff_eq_none.mp hFree) hAdd
  rw [hAdd] at hTrace
  dsimp only at hTrace
  rw [hDelete, hGroups] at hTrace
  simp [Except.toOption] at hTrace

/-- A group that was made for nobody yet goes with the account of its name, the administrator is not deleted where there
was no account of that name before, and neither is the home of a user in whose former home the session was left. -/
theorem not_undone : (∃ s, Lived [] s ∧ s.isDirectory s.cwd = true ∧ ¬s.Undone "alice") ∧
    (∃ marks s, Lived marks s ∧ s.isDirectory s.cwd = true ∧ ¬s.Undone adminName) ∧
    ∃ s, Lived [] s ∧ s.subject.isAdmin = true ∧ ¬s.Undone "bob" := by
  refine ⟨?_, ?_, ?_⟩
  · have hRun : (Session.fresh? "root" 0.0).map (fun s => let t := (s.apply (.addGroup "alice")).2
        (t.isDirectory t.cwd, t.leavesTrace "alice")) = some (true, true) := by
      decide +kernel
    obtain ⟨s, hFresh, hRun⟩ := Option.map_eq_some_iff.mp hRun
    obtain ⟨hCwd, hTrace⟩ := Prod.mk.inj hRun
    exact ⟨_, (Lived.start hFresh).operate (.addGroup "alice"), hCwd, not_undone_of_trace hTrace⟩
  · have hRun : (Session.fresh? "user" 0.0).map (fun s => (s.restore strangers).toOption.map fun t =>
        let u := t.enterElevation.2
        (u.isDirectory u.cwd, u.leavesTrace adminName)) = some (some (true, true)) := by
      decide +kernel
    obtain ⟨s, hFresh, hRun⟩ := Option.map_eq_some_iff.mp hRun
    obtain ⟨t, hRestore, hRun⟩ := Option.map_eq_some_iff.mp hRun
    obtain ⟨hCwd, hTrace⟩ := Prod.mk.inj hRun
    have hLived := (Lived.start hFresh).restore (Result.toOption_eq_some_iff.mp hRestore)
    exact ⟨_, _, hLived.enter, hCwd, not_undone_of_trace hTrace⟩
  · have hRun : (Session.fresh? "user" 0.0).map (fun s =>
        (s.restore (landlord "/home/bob" "/home/bob/")).toOption.map fun t =>
          let u := (t.apply (.deleteUser "bob" true)).2
          (u.subject.isAdmin, u.leavesTrace "bob")) = some (some (true, true)) := by
      decide +kernel
    obtain ⟨s, hFresh, hRun⟩ := Option.map_eq_some_iff.mp hRun
    obtain ⟨t, hRestore, hRun⟩ := Option.map_eq_some_iff.mp hRun
    obtain ⟨hAdmin, hTrace⟩ := Prod.mk.inj hRun
    have hLived := (Lived.start hFresh).restore (Result.toOption_eq_some_iff.mp hRestore)
    exact ⟨_, hLived.operate (.deleteUser "bob" true), hAdmin, not_undone_of_trace hTrace⟩

end VirtualShell.Session
