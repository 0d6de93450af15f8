import VirtualShell.Proofs.Result
import VirtualShell.Proofs.Session.Operations

/-!
# What the operations on accounts do

The operation that deletes an account writes twice before it takes the home directory out of the tree,
so its statement asks for a home that can be taken out if it is there.
-/
namespace VirtualShell.Session
set_option autoImplicit false

open Update

variable (s : Session)

theorem subject_username : s.subject.username = s.username := by
  unfold subject
  cases hAccount : s.account? with
  | none => rfl
  | some a =>
    have hKey : a.username = s.username := by simpa using List.find?_some hAccount
    exact hKey

theorem requireGroups_ok {groups : Names} (h : s.requireGroups groups = .ok ()) : groups.minus s.groups = [] := by
  unfold requireGroups at h
  split at h
  · assumption
  · cases h

theorem addGroup_ends (name : String) : (addGroup name).Ends s fun _ s' =>
    s.requireAdmin "groupadd" = .ok () ∧ isAccountName name = true ∧ s.groups.contains name = false ∧
      s' = { s with groups := s.groups.add name } := by
  unfold addGroup
  refine ends_session_bind (ends_lift_bind fun _ hAdmin => ?_)
  refine ends_error_ite fun hName => ends_error_ite fun hNew => ?_
  exact ends_write_bind (returns_pure ⟨hAdmin, by simpa using hName, by simpa using hNew, rfl⟩)

theorem addUser_ends (username : String) (groups : List String) (primary : Option String) (createHome : Bool) :
    (addUser username groups primary createHome).Ends s fun account s' =>
      s.requireAdmin "useradd" = .ok () ∧ isAccountName username = true ∧ s.accounts.contains username = false ∧
        Names.minus (Roster.ofList groups) s.groups = [] ∧ s.requirePrimary primary = .ok () ∧
        (createHome = true → s.isDirectory "/home" = true) ∧
        account = Account.create username (primaryOr primary username) (Roster.ofList groups)
          ("/home/" ++ username) ∧
        s' = (let t := { s with groups := s.groups.add (primaryOr primary username),
                                accounts := s.accounts.insert account }
          if createHome then t.addHome username (primaryOr primary username) else t) := by
  unfold addUser
  refine ends_session_bind (ends_lift_bind fun _ hAdmin => ?_)
  refine ends_error_ite fun hName => ends_error_ite fun hNew => ?_
  refine ends_lift_bind fun _ hGroups => ends_lift_bind fun _ hPrimary => ?_
  refine ends_error_ite fun hHome => ends_write_bind (returns_write_bind (returns_pure ?_))
  refine ⟨hAdmin, by simpa using hName, by simpa using hNew, s.requireGroups_ok hGroups, hPrimary, ?_, rfl, rfl⟩
  intro hCreate
  simpa [hCreate] using hHome

theorem changeGroups_ends (username : String) (groups : List String) (append : Bool) :
    (changeGroups username groups append).Ends s fun changed s' =>
      s.requireAdmin "usermod" = .ok () ∧ Names.minus (Roster.ofList groups) s.groups = [] ∧
        ∃ account, s.accounts.find? username = some account ∧
          changed = { account with supplemental :=
            if append then account.supplemental.union (Roster.ofList groups) else Roster.ofList groups } ∧
          s' = { s with accounts := s.accounts.insert changed } := by
  unfold changeGroups
  refine ends_session_bind (ends_lift_bind fun _ hAdmin => ?_)
  split
  · exact ends_error _
  · rename_i account hAccount
    exact ends_lift_bind fun _ hGroups =>
      ends_write_bind (returns_pure ⟨hAdmin, s.requireGroups_ok hGroups, account, hAccount, rfl, rfl⟩)

theorem switchUser_ends (username : String) : (switchUser username).Ends s fun _ s' =>
    s.accounts.contains username = true ∧ (s.subject.isAdmin = true ∨ username = s.username) ∧
      s' = { s with username := username, switches := s.switches + 1 } := by
  unfold switchUser
  apply ends_session_bind
  refine ends_error_ite fun hKnown => ends_error_ite fun hMay => ?_
  refine ends_write_bind (returns_pure ⟨by simpa using hKnown, ?_, rfl⟩)
  by_cases hAdmin : s.subject.isAdmin = true
  · exact .inl hAdmin
  · exact .inr (by simpa [hAdmin] using hMay)

variable {s}

/-- An account that may be deleted, with what was looked at before. -/
theorem deletable_ok {username : String} {removeHome present : Bool} {account : Account}
    (h : s.deletable username removeHome = .ok (account, present)) :
    s.requireAdmin "userdel" = .ok () ∧ s.accounts.find? username = some account ∧ username ≠ adminName ∧
      s.activeUsers.contains username = false ∧ (removeHome = true → account.home ≠ "/" ∧ account.home ≠ "") ∧
      present = (removeHome && (s.lookup account.home).isSome) ∧
      (present = true → Path.isWithin s.cwd account.home = false) := by
  unfold deletable at h
  obtain ⟨_, hAdmin, h⟩ := Result.exists_of_bind_ok h
  split at h
  · cases h
  · rename_i found hFound
    split at h
    · cases h
    · rename_i hActive
      split at h
      · cases h
      · rename_i hHome
        dsimp only at h
        split at h
        · cases h
        · rename_i hUse
          cases h
          simp only [Bool.or_eq_true, beq_iff_eq, not_or, Bool.not_eq_true] at hActive
          refine ⟨hAdmin, hFound, hActive.1, hActive.2, ?_, rfl, ?_⟩
          · intro hRemove
            simpa [hRemove] using hHome
          · intro hPresent
            simpa [hPresent] using hUse

theorem deleteUser_ends {username : String} {removeHome : Bool}
    (hHome : ∀ account, s.accounts.find? username = some account → (s.lookup account.home).isSome = true →
      removeHome = true → account.home ≠ "/" →
      ∃ e, (s.lookup (Path.parentOf account.home)).bind (·.child? (Path.baseName account.home)) = some e) :
    (deleteUser username removeHome).Ends s fun _ s' =>
      ∃ account present, s.deletable username removeHome = .ok (account, present) ∧
        s' = (let t := { s with accounts := s.accounts.erase username }
          (if present then t.detached account.home else t).dropOwnGroup account) := by
  unfold deleteUser
  refine ends_session_bind (ends_lift_bind fun ⟨account, present⟩ hDeletable => ?_)
  obtain ⟨-, hFound, -, -, hProtected, hPresent, -⟩ := deletable_ok hDeletable
  apply ends_write_bind
  refine returns_bind (m := fun _ t => t = if present then
    detached { s with accounts := s.accounts.erase username } account.home
      else { s with accounts := s.accounts.erase username }) ?_ ?_
  · unfold detachHome
    split
    · rename_i hTrue
      subst hPresent
      obtain ⟨hRemove, hSome⟩ := (Bool.and_eq_true _ _).mp hTrue
      obtain ⟨e, he⟩ := hHome account hFound hSome hRemove (hProtected hRemove).1
      exact detach_returns he
    · exact returns_pure rfl
  · intro _ t ht
    subst ht
    exact returns_write_bind (returns_pure ⟨account, present, hDeletable, rfl⟩)

end VirtualShell.Session
