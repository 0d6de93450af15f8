import VirtualShell.Proofs.Session.Enrolment
import VirtualShell.Proofs.Session.Holding
import VirtualShell.Proofs.Shell.Place

/-!
# Account tables

A run goes from the start through operations, logins, elevated blocks and snapshots that are taken over.
Whatever table of accounts a snapshot brings, all groups of accounts are known afterwards, and the user that
the session is left with, once all open blocks have ended, has an account.
-/
namespace VirtualShell
set_option autoImplicit false

namespace Session

/-- A session that a run leads to, with the marks of the blocks that are open, innermost first. A snapshot
that is taken over cuts off all open blocks: their ends find nothing to return to. -/
inductive Lived : List Mark → Session → Prop where
  | start {username : String} {now : Float} {s : Session} : Session.fresh? username now = some s → Lived [] s
  | wait {marks : List Mark} {s : Session} (now : Float) : Lived marks s → Lived marks { s with now := now }
  | operate {marks : List Mark} {s : Session} (o : Operation) : Lived marks s → Lived marks (s.apply o).2
  | login {marks : List Mark} {s t : Session} {username name : String} : Lived marks s →
      (switchUser username).run s = (.ok name, t) → Lived marks t.goHome
  | restore {marks : List Mark} {s t : Session} {blob : Json} : Lived marks s → s.restore blob = .ok t → Lived [] t
  | reject {marks : List Mark} {s : Session} {fault : Fault} (blob : Json) : Lived marks s →
      ((adopt blob).run s).1 = .error fault → Lived marks ((adopt blob).run s).2
  | enter {marks : List Mark} {s : Session} : Lived marks s → Lived (s.enterElevation.1 :: marks) s.enterElevation.2
  | leave {mark : Mark} {marks : List Mark} {s : Session} : Lived (mark :: marks) s →
      Lived marks (leaveElevation mark s).2
  | leaveCutOff {s : Session} (mark : Mark) : Lived [] s → Lived [] (leaveElevation mark s).2

theorem invariant_lived : Invariant Lived where
  operate o h := h.operate o
  login h hRun := h.login hRun
  enter h := h.enter
  leave h := h.leave

theorem Lived.line {marks : List Mark} {sh : Shell} (h : Lived marks sh.session) (o : ShellOptions) (markup : Bool)
    (line : String) : Lived marks (sh.run o markup line).2.session :=
  Shell.run_keeps invariant_lived line h

theorem Lived.lines {marks : List Mark} {sh : Shell} (h : Lived marks sh.session) (lines : List String) :
    Lived marks (sh.runLines lines).session := by
  induction lines generalizing sh with
  | nil => exact h
  | cons line lines ih => exact ih (h.line .default false line)

def userAfter (switches : Nat) (username : String) : List Mark → String
  | [] => username
  | mark :: marks => userAfter switches (if switches == mark.switches then mark.username else username) marks

theorem userAfter_mem (switches : Nat) (username : String) (marks : List Mark) :
    userAfter switches username marks ∈ username :: marks.map Mark.username := by
  induction marks generalizing username with
  | nil => exact List.mem_cons_self
  | cons mark marks ih =>
    rw [userAfter]
    rcases List.mem_cons.mp (ih (if switches == mark.switches then mark.username else username)) with hHere | hLater
    · rw [hHere]
      split
      · simp
      · simp
    · exact List.mem_cons_of_mem _ (List.mem_cons_of_mem _ hLater)

/-- Nobody is returned to after a switch. -/
theorem userAfter_of_switched {switches : Nat} {marks : List Mark} (h : ∀ mark ∈ marks, mark.switches < switches)
    (username : String) : userAfter switches username marks = username := by
  induction marks with
  | nil => rfl
  | cons mark marks ih =>
    obtain ⟨hMark, hMarks⟩ := List.forall_mem_cons.mp h
    -- The block was entered before the last switch, and its end changes nothing.
    rw [userAfter, if_neg (by simpa using Nat.ne_of_gt hMark)]
    exact ih hMarks

/-- What holds of the accounts all along a run. -/
structure Enrolled (marks : List Mark) (s : Session) : Prop where
  elevations : s.elevations = marks.map Mark.username
  switches : ∀ mark ∈ marks, mark.switches ≤ s.switches
  user : s.accounts.contains (userAfter s.switches s.username marks) = true
  groups : ∀ a ∈ s.accounts.members, ∀ g, a.groups.contains g = true → s.groups.contains g = true
  named : ∀ a ∈ s.accounts.members, a.Named

namespace Enrolled

variable {marks : List Mark} {mark : Mark} {s t : Session}

theorem of_same (h : Enrolled marks s) (hSame : SameIdentity s t) : Enrolled marks t := by
  obtain ⟨⟨hAccounts, hGroups, hUsername, hElevations⟩, hSwitches⟩ := hSame
  constructor
  · rw [hElevations, h.elevations]
  · rw [hSwitches]
    exact h.switches
  · rw [hAccounts, hSwitches, hUsername]
    exact h.user
  · rw [hAccounts, hGroups]
    exact h.groups
  · rw [hAccounts]
    exact h.named

theorem mem_activeUsers (h : Enrolled marks s) :
    s.activeUsers.contains (userAfter s.switches s.username marks) = true := by
  rw [activeUsers, Roster.contains_ofList, h.elevations, List.any_eq_true]
  exact ⟨_, userAfter_mem _ _ marks, beq_self_eq_true _⟩

theorem insert (h : Enrolled marks s) {a : Account}
    (hGroups : ∀ g, a.groups.contains g = true → s.groups.contains g = true) (hNamed : a.Named) :
    Enrolled marks { s with accounts := s.accounts.insert a } := by
  refine ⟨h.elevations, h.switches, ?_, fun b hb g hg => ?_, fun b hb => ?_⟩
  · rw [Roster.contains_insert, h.user, Bool.or_true]
  · rcases Roster.of_mem_insert hb with rfl | hb
    · exact hGroups g hg
    · exact h.groups b hb g hg
  · rcases Roster.of_mem_insert hb with rfl | hb
    · exact hNamed
    · exact h.named b hb

theorem erase (h : Enrolled marks s) {username : String} (hInactive : s.activeUsers.contains username = false) :
    Enrolled marks { s with accounts := s.accounts.erase username } := by
  -- Whoever will act again is active now, and so is not the one who is deleted.
  have hne : userAfter s.switches s.username marks ≠ username := by
    rintro rfl
    rw [h.mem_activeUsers] at hInactive
    cases hInactive
  refine ⟨h.elevations, h.switches, ?_, fun a ha => h.groups a (Roster.of_mem_erase ha),
    fun a ha => h.named a (Roster.of_mem_erase ha)⟩
  rw [Roster.contains_erase, h.user, Bool.and_true]
  exact bne_iff_ne.mpr hne

theorem dropOwnGroup (h : Enrolled marks s) (account : Account) : Enrolled marks (s.dropOwnGroup account) := by
  rcases dropOwnGroup_eq s account with hSame | hDropped
  · rw [hSame]
    exact h
  · have hGroups : ∀ a ∈ s.accounts.members, ∀ g, a.groups.contains g = true →
        (s.dropOwnGroup account).groups.contains g = true :=
      fun a ha g hg => known_dropOwnGroup account ha hg (h.groups a ha g hg)
    rw [hDropped] at hGroups ⊢
    exact ⟨h.elevations, h.switches, h.user, hGroups, h.named⟩

theorem switch (h : Enrolled marks s) {username : String} (hKnown : s.accounts.contains username = true) :
    Enrolled marks { s with username := username, switches := s.switches + 1 } := by
  have hSwitched : ∀ mark ∈ marks, mark.switches < s.switches + 1 :=
    fun mark hMark => Nat.lt_succ_of_le (h.switches mark hMark)
  refine ⟨h.elevations, fun mark hMark => Nat.le_of_lt (hSwitched mark hMark), ?_, h.groups, h.named⟩
  show s.accounts.contains (userAfter (s.switches + 1) username marks) = true
  rw [userAfter_of_switched hSwitched]
  exact hKnown

theorem enrolment (h : Enrolled marks s) (hStep : Enrolment s t) : Enrolled marks t := by
  cases hStep with
  | same hSame => exact h.of_same hSame
  | addGroup group =>
    refine ⟨h.elevations, h.switches, h.user, fun a ha g hg => ?_, h.named⟩
    rw [Names.contains_add, h.groups a ha g hg, Bool.or_true]
  | enlist home hUsername hGroup hKnown hGroups =>
    refine h.insert (fun g hg => ?_) ⟨hUsername, hGroup, Account.home_create_ne⟩
    rw [Account.contains_groups, Bool.or_eq_true] at hg
    rcases hg with hOwn | hOther
    · rw [← beq_iff_eq.mp hOwn]
      exact hKnown
    · exact hGroups g hOther
  | @regroup a groups hMem hGroups =>
    obtain ⟨hUsername, hPrimary, hHome⟩ := h.named a hMem
    refine h.insert (fun g hg => ?_) ⟨hUsername, hPrimary, hHome⟩
    have hOld := h.groups a hMem g
    rw [Account.contains_groups, Bool.or_eq_true] at hg hOld
    rcases hg with hOwn | hOther
    · exact hOld (.inl hOwn)
    · rcases hGroups g hOther with hBefore | hKnown
      · exact hOld (.inr hBefore)
      · exact hKnown
  | erase hInactive => exact h.erase hInactive
  | dropOwnGroup account => exact h.dropOwnGroup account
  | switch hKnown => exact h.switch hKnown

theorem enrolments (h : Enrolled marks s) (hSteps : Enrolments s t) : Enrolled marks t := by
  induction hSteps with
  | refl => exact h
  | tail _ hStep ih => exact ih.enrolment hStep

theorem enter (h : Enrolled marks s) : Enrolled (s.enterElevation.1 :: marks) s.enterElevation.2 := by
  refine ⟨elevations_enter h.elevations, ?_, ?_, h.groups, h.named⟩
  · exact List.forall_mem_cons.mpr ⟨Nat.le_refl _, h.switches⟩
  · show s.accounts.contains (userAfter s.switches adminName (⟨s.username, s.switches⟩ :: marks)) = true
    rw [userAfter, if_pos (beq_self_eq_true s.switches)]
    exact h.user

theorem leave (h : Enrolled (mark :: marks) s) : Enrolled marks (leaveElevation mark s).2 := by
  have hOpen : s.elevations = mark.username :: marks.map Mark.username := h.elevations
  obtain ⟨-, hMarks⟩ := List.forall_mem_cons.mp h.switches
  have hElevations := elevations_leave h.elevations
  unfold leaveElevation at hElevations ⊢
  rw [hOpen] at hElevations ⊢
  exact ⟨hElevations, hMarks, h.user, h.groups, h.named⟩

theorem leaveElevation_cutOff (h : Enrolled [] s) (mark : Mark) : (leaveElevation mark s).2 = s := by
  have hNone : s.elevations = [] := h.elevations
  unfold leaveElevation
  rw [hNone]

end Enrolled

theorem named_accountsOver {m : Snapshot} {blob : Json} {s : Session} (h : m.Describes blob)
    (hNamed : ∀ a ∈ s.accounts.members, a.Named) : ∀ a ∈ (m.accountsOver s).members, a.Named := by
  intro a ha
  rcases Snapshot.of_mem_accountsOver ha with ⟨users, u, hUsers, hu, rfl⟩ | ha
  · obtain ⟨hUsername, hPrimary⟩ := h.users_named hUsers u hu
    exact ⟨hUsername, hPrimary, Account.home_create_ne⟩
  · exact hNamed a ha

/-- Whatever was open before, nothing is afterwards. -/
theorem Enrolled.restore {marks : List Mark} {s t : Session} {blob : Json} (h : Enrolled marks s)
    (hRestore : s.restore blob = .ok t) : Enrolled [] t := by
  obtain ⟨model, account, hDescribes, -, -, hAccount, rfl⟩ := adopted_of_restore hRestore
  constructor
  · rfl
  · exact fun mark hMark => nomatch hMark
  · show (model.accountsOver s).contains (model.usernameOver s) = true
    rw [Roster.contains, hAccount]
    rfl
  · exact fun a ha g hg => Snapshot.contains_groupsOver ha hg
  · exact named_accountsOver hDescribes h.named

theorem Lived.enrolled {marks : List Mark} {s : Session} (h : Lived marks s) : Enrolled marks s := by
  induction h with
  | start hFresh =>
    obtain ⟨-, hAccounts⟩ := (Reached.start hFresh).inv.sound
    have hElevations := (Reached.start hFresh).inv.elevations
    exact ⟨hElevations, by simp, hAccounts.user, fun a ha => (hAccounts.account a ha).groups,
      fun a ha => (hAccounts.account a ha).named⟩
  | wait now _ ih => exact ih.of_same ⟨⟨rfl, rfl, rfl, rfl⟩, rfl⟩
  | operate o _ ih => exact ih.enrolments (enrols_steps o _)
  | @login marks s t username name _ hRun ih =>
    have hSwitch : Enrolments s t := by
      have hSteps := enrols_switchUser username s
      rwa [hRun] at hSteps
    exact (ih.enrolments hSwitch).of_same (sameIdentity_goHome t)
  | restore _ hRestore ih => exact ih.restore hRestore
  | reject blob _ hFail ih =>
    rw [adopt_unchanged hFail]
    exact ih
  | enter _ ih => exact ih.enter
  | leave _ ih => exact ih.leave
  | leaveCutOff mark _ ih =>
    rw [ih.leaveElevation_cutOff mark]
    exact ih

/-- Whoever acts, or will act again, keeps the account that others may lose. -/
theorem find?_deleteUser {s : Session} {username u : String} (removeHome : Bool) (h : s.activeUsers.contains u = true) :
    (s.apply (.deleteUser username removeHome)).2.accounts.find? u = s.accounts.find? u := by
  have hRun : (s.apply (.deleteUser username removeHome)).2 = ((deleteUser username removeHome).run s).2 :=
    Update.snd_run_map _ _ s
  rw [hRun]
  rcases deleteUser_run s username removeHome with hSame | ⟨hInactive, t, hErased, hEnd⟩
  · rw [hSame]
  · have hne : u ≠ username := by
      rintro rfl
      rw [h] at hInactive
      cases hInactive
    have hAccounts : t.accounts.find? u = s.accounts.find? u := by
      rw [hErased.accounts, Roster.find?_erase, if_neg hne]
    rcases hEnd with hEnd | ⟨account, hEnd⟩
    · rw [hEnd, hAccounts]
    · rw [hEnd, ← hAccounts]
      rcases dropOwnGroup_eq t account with hSame | hDropped
      · rw [hSame]
      · rw [hDropped]

/-- Command lines belong to a run as well. Outside of elevated blocks accounts stand under their own names, all
their groups are known, and the user of the session has one. Inside and outside, nobody who acts or is returned to
loses it. -/
theorem Lived.accounts_consistent {marks : List Mark} {s : Session} (h : Lived marks s) :
    (∀ (sh : Shell) (o : ShellOptions) (markup : Bool) (line : String), sh.session = s →
      Lived marks (sh.run o markup line).2.session) ∧
    (s.elevations = [] → s.accounts.contains s.username = true ∧ ∀ key a, s.accounts.find? key = some a →
      a.username = key ∧ s.groups.contains a.primaryGroup = true ∧
        ∀ g, a.supplemental.contains g = true → s.groups.contains g = true) ∧
      ∀ username removeHome u, u = s.username ∨ u ∈ marks.map Mark.username →
        (s.apply (.deleteUser username removeHome)).2.accounts.find? u = s.accounts.find? u := by
  have hEnrolled := h.enrolled
  refine ⟨?_, ?_, ?_⟩
  · rintro sh o markup line rfl
    exact h.line o markup line
  · intro hOutside
    have hMarks : marks = [] := by
      rw [hEnrolled.elevations] at hOutside
      exact List.map_eq_nil_iff.mp hOutside
    subst hMarks
    refine ⟨hEnrolled.user, fun key a hFind => ?_⟩
    obtain ⟨hMem, hKey⟩ := Roster.find?_eq_some_iff.mp hFind
    have hGroups := hEnrolled.groups a hMem
    simp only [Account.contains_groups, Bool.or_eq_true] at hGroups
    exact ⟨hKey, hGroups _ (.inl (beq_self_eq_true _)), fun g hg => hGroups g (.inr hg)⟩
  · intro username removeHome u hu
    apply find?_deleteUser
    rw [activeUsers, hEnrolled.elevations, Roster.contains_ofList, List.any_eq_true]
    exact ⟨u, List.mem_cons.mpr hu, beq_self_eq_true u⟩

def strangers : Json :=
  let user (name : String) : Json := .object [("username", .string name), ("primary_group", .string "guests")]
  .object [("tree", folder "/" [folder "home" []]), ("username", .string "bob"),
    ("users", .array [user "bob", user "eve"])]

/-- There `bob` adds another user, becomes that one, and is deleted by it. -/
theorem accounts_consistent_of_strangers : ∃ s t u : Session, Session.fresh? "user" 0.0 = some s ∧
    s.restore strangers = .ok t ∧
      u = (Shell.runLines ⟨t, []⟩ ["sudo useradd alice", "sudo su alice", "sudo userdel bob",
        "sudo userdel alice"]).session ∧
      Lived [] u ∧ u.username = "alice" ∧ u.accounts.contains "bob" = false ∧
      (∀ (sh : Shell) (o : ShellOptions) (markup : Bool) (line : String), sh.session = u →
        Lived [] (sh.run o markup line).2.session) ∧
      (u.elevations = [] → u.accounts.contains u.username = true ∧ ∀ key a, u.accounts.find? key = some a →
        a.username = key ∧ u.groups.contains a.primaryGroup = true ∧
          ∀ g, a.supplemental.contains g = true → u.groups.contains g = true) ∧
        ∀ username removeHome v, v = u.username ∨ v ∈ ([] : List Mark).map Mark.username →
          (u.apply (.deleteUser username removeHome)).2.accounts.find? v = u.accounts.find? v := by
  have hRun : (Session.fresh? "user" 0.0).map (fun s => (s.restore strangers).toOption.map fun t =>
      let u := (Shell.runLines ⟨t, []⟩ ["sudo useradd alice", "sudo su alice", "sudo userdel bob",
        "sudo userdel alice"]).session
      (u.username, u.accounts.contains "bob")) = some (some ("alice", false)) := by
    decide +kernel
  obtain ⟨s, hFresh, hRun⟩ := Option.map_eq_some_iff.mp hRun
  obtain ⟨t, hRestore, hRun⟩ := Option.map_eq_some_iff.mp hRun
  obtain ⟨hUser, hBob⟩ := Prod.mk.inj hRun
  have hRestore := Result.toOption_eq_some_iff.mp hRestore
  have hLived : Lived [] (Shell.runLines ⟨t, []⟩ ["sudo useradd alice", "sudo su alice", "sudo userdel bob",
      "sudo userdel alice"]).session := Lived.lines ((Lived.start hFresh).restore hRestore) _
  exact ⟨s, t, _, hFresh, hRestore, rfl, hLived, hUser, hBob, hLived.accounts_consistent⟩

end Session

end VirtualShell
