import Mathlib.Logic.Relation
import VirtualShell.Proofs.Session.Users

/-!
# What an operation may do to the accounts

An operation leaves the accounts as they are, or it makes one of a few changes to them. Whoever acts, or
will act again at the end of an elevation, keeps the account. None of this looks at the tree, so it holds of
sessions with any tree.
-/
namespace VirtualShell
set_option autoImplicit false

/-- A name, a group and a home that are texts at all. -/
structure Account.Named (a : Account) : Prop where
  username : a.username ≠ ""
  primaryGroup : a.primaryGroup ≠ ""
  home : a.home ≠ ""

theorem Account.Valid.named {groups : Names} {a : Account} (h : a.Valid groups) : a.Named :=
  ⟨h.username, h.primaryGroup, Path.ne_empty_of_isCanonical h.home⟩

theorem Account.home_create_ne {username group home : String} {groups : Names} :
    (Account.create username group groups home).home ≠ "" := by
  unfold create
  dsimp only
  split
  · rename_i hHome
    exact bne_iff_ne.mp hHome
  · split
    · decide
    · intro hEmpty
      have hLength := congrArg String.length hEmpty
      rw [String.length_append] at hLength
      simp at hLength

def Operation.isOnAccounts : Operation → Bool
  | .addGroup .. | .addUser .. | .changeGroups .. | .deleteUser .. | .switchUser .. => true
  | _ => false

namespace Session

/-- Nothing has changed but the tree, the place in it and the time. -/
structure SameIdentity (s t : Session) : Prop extends SameUsers s t where
  switches : t.switches = s.switches

inductive Enrolment (s : Session) : Session → Prop where
  | same {t : Session} : SameIdentity s t → Enrolment s t
  | addGroup (group : String) : Enrolment s { s with groups := s.groups.add group }
  | enlist {username group : String} (home : String) {groups : Names} : username ≠ "" → group ≠ "" →
      s.groups.contains group = true → (∀ g, groups.contains g = true → s.groups.contains g = true) →
      Enrolment s { s with accounts := s.accounts.insert (Account.create username group groups home) }
  | regroup {a : Account} {groups : Names} : a ∈ s.accounts.members →
      (∀ g, groups.contains g = true → a.supplemental.contains g = true ∨ s.groups.contains g = true) →
      Enrolment s { s with accounts := s.accounts.insert { a with supplemental := groups } }
  | erase {username : String} : s.activeUsers.contains username = false →
      Enrolment s { s with accounts := s.accounts.erase username }
  | dropOwnGroup (account : Account) : Enrolment s (s.dropOwnGroup account)
  | switch {username : String} : s.accounts.contains username = true →
      Enrolment s { s with username := username, switches := s.switches + 1 }

abbrev Enrolments : Session → Session → Prop := Relation.ReflTransGen Enrolment

variable {s t : Session} {path : PathArg}

theorem SameIdentity.refl : SameIdentity s s := ⟨⟨rfl, rfl, rfl, rfl⟩, rfl⟩

theorem sameIdentity_modifyAt (s : Session) (path : String) (f : Node → Node) : SameIdentity s (s.modifyAt path f) :=
  ⟨sameUsers_modifyAt s path f, rfl⟩

theorem sameIdentity_detached (s : Session) (target : String) : SameIdentity s (s.detached target) := by
  refine ⟨sameUsers_detached s target, ?_⟩
  unfold detached stepOut
  split
  · simp only [switches_removeEntry]
  · simp only [switches_removeEntry]

theorem sameIdentity_moved (s : Session) (source : String) (n : Node) (directory name : String) :
    SameIdentity s (s.moved source n directory name) := by
  refine ⟨sameUsers_moved s source n directory name, ?_⟩
  unfold moved follow
  split
  · simp only [switches_addEntry, switches_removeEntry]
  · simp only [switches_addEntry, switches_removeEntry]

theorem sameIdentity_addHome (s : Session) (username group : String) : SameIdentity s (s.addHome username group) := by
  unfold addHome
  split
  · exact .refl
  · exact sameIdentity_modifyAt s _ _

theorem sameIdentity_goHome (s : Session) : SameIdentity s s.goHome := by
  unfold goHome
  exact ⟨⟨rfl, rfl, rfl, rfl⟩, rfl⟩

theorem primaryOr_ne_empty {primary : Option String} {username : String} (h : username ≠ "") :
    primaryOr primary username ≠ "" := by
  unfold primaryOr
  split
  · exact h
  · exact h
  · rename_i group hGroup
    exact fun hEmpty => hGroup hEmpty

open Update

section

/-- Steps that change accounts, if they do, by enrolments. -/
def Enrols {α : Type} (u : Update α) : Prop := ∀ s, Enrolments s (u.run s).2

variable {α β : Type} {u : Update α}

theorem enrols_of_ends (h : ∀ s, u.Ends s fun _ t => Enrolments s t) : Enrols u := fun s =>
  (h s).keeps (P := Enrolments s) (fun _ _ ht => ht) .refl

theorem enrols_of_same (h : ∀ s, u.Ends s fun _ t => SameIdentity s t) : Enrols u :=
  enrols_of_ends fun s => (h s).mono fun _ _ ht => .single (.same ht)

theorem Enrols.map {g : α → β} (h : Enrols u) : Enrols (g <$> u) := by
  intro s
  rw [snd_run_map]
  exact h s

end

theorem sameIdentity_detach (s : Session) (target : String) : (detach target).Ends s fun _ t => SameIdentity s t := by
  refine (detach_ends s target).mono ?_
  rintro _ _ ⟨-, rfl⟩
  exact sameIdentity_detached s target

theorem sameIdentity_changeDirectory (s : Session) :
    (changeDirectory path).Ends s fun _ t => SameIdentity s t := by
  refine (changeDirectory_ends s path).mono ?_
  rintro _ _ ⟨-, n, -, -, rfl⟩
  exact ⟨⟨rfl, rfl, rfl, rfl⟩, rfl⟩

theorem sameIdentity_createFile (s : Session) (content : String) :
    (createFile path content).Ends s fun _ t => SameIdentity s t := by
  refine (createFile_ends s path content).mono ?_
  rintro _ _ ⟨-, parent, -, ⟨i, c, -, -, rfl⟩ | ⟨-, -, rfl⟩⟩
  · exact sameIdentity_modifyAt s _ _
  · exact sameIdentity_modifyAt s _ _

theorem sameIdentity_createDirectory (s : Session) (parents : Bool) :
    (createDirectory path parents).Ends s fun _ t => SameIdentity s t := by
  refine (createDirectory_ends s path parents).mono ?_
  rintro _ t ⟨-, plan, -, ht⟩
  split at ht
  · rw [ht]
    exact .refl
  · rw [ht]
    exact .refl
  · rw [ht.2]
    exact sameIdentity_modifyAt s _ _

theorem sameIdentity_writeFile (s : Session) (content : String) (append : Bool) :
    (writeFile path content append).Ends s fun _ t => SameIdentity s t := by
  refine (writeFile_ends s path content append).mono ?_
  rintro _ _ ⟨-, parent, -, ⟨i, c, -, -, rfl⟩ | ⟨-, -, rfl⟩⟩
  · exact sameIdentity_modifyAt s _ _
  · exact sameIdentity_modifyAt s _ _

theorem sameIdentity_remove (s : Session) (recursive : Bool) :
    (remove path recursive).Ends s fun _ t => SameIdentity s t := by
  refine (remove_ends s path recursive).mono ?_
  rintro _ _ ⟨-, -, n, parent, -, -, -, -, -, -, rfl⟩
  exact sameIdentity_detached s _

theorem sameIdentity_removeDirectory (s : Session) :
    (removeDirectory path).Ends s fun _ t => SameIdentity s t := by
  refine (removeDirectory_ends s path).mono ?_
  rintro _ _ ⟨-, -, n, parent, -, -, -, -, -, -, rfl⟩
  exact sameIdentity_detached s _

theorem sameIdentity_move (s : Session) (source dest : PathArg) :
    (move source dest).Ends s fun _ t => SameIdentity s t := by
  refine (move_ends s source dest).mono ?_
  rintro _ _ ⟨-, n, directory, name, -, -, -, -, ⟨-, rfl⟩ | ⟨-, -, -, parent, target, -, -, -, -, -, rfl⟩⟩
  · exact .refl
  · exact sameIdentity_moved s _ n directory name

theorem sameIdentity_copy (s : Session) (source dest : PathArg) (recursive : Bool) :
    (copy source dest recursive).Ends s fun _ t => SameIdentity s t := by
  refine (copy_ends s source dest recursive).mono ?_
  rintro _ _ ⟨n, directory, name, -, -, -, -, -, -, -, -, target, -, ⟨e, -, -, -, -, rfl⟩ | ⟨-, -, rfl⟩⟩
  · exact sameIdentity_modifyAt s _ _
  · exact sameIdentity_modifyAt s _ _

theorem sameIdentity_changeMode (s : Session) (mode : String) :
    (changeMode path mode).Ends s fun _ t => SameIdentity s t := by
  refine (changeMode_ends s path mode).mono ?_
  rintro _ _ ⟨n, -, -, -, rfl⟩
  exact sameIdentity_modifyAt s _ _

theorem sameIdentity_changeOwner (s : Session) (spec : String) (recursive : Bool) :
    (changeOwner path spec recursive).Ends s fun _ t => SameIdentity s t := by
  refine (changeOwner_ends s path spec recursive).mono ?_
  rintro _ _ ⟨-, -, -, -, n, -, -, rfl⟩
  exact sameIdentity_modifyAt s _ _

/-- Operations on the tree. -/
theorem sameIdentity_steps (o : Operation) (h : o.isOnAccounts = false) (s : Session) :
    (steps o).Ends s fun _ t => SameIdentity s t := by
  cases o with
  | stat path => exact ends_map (ends_look fun _ _ => .refl)
  | list path hidden => exact ends_map (ends_look fun _ _ => .refl)
  | changeDirectory path => exact ends_map (sameIdentity_changeDirectory s)
  | read path => exact ends_map (ends_look fun _ _ => .refl)
  | createFile path content => exact ends_map (sameIdentity_createFile s content)
  | createDirectory path parents => exact ends_map (sameIdentity_createDirectory s parents)
  | write path content append => exact ends_map (sameIdentity_writeFile s content append)
  | remove path recursive => exact ends_map (sameIdentity_remove s recursive)
  | removeDirectory path => exact ends_map (sameIdentity_removeDirectory s)
  | move source dest => exact ends_map (sameIdentity_move s source dest)
  | copy source dest recursive => exact ends_map (sameIdentity_copy s source dest recursive)
  | changeMode path mode => exact ends_map (sameIdentity_changeMode s mode)
  | changeOwner path spec recursive => exact ends_map (sameIdentity_changeOwner s spec recursive)
  | addGroup | addUser | changeGroups | deleteUser | switchUser => cases h

theorem enrols_addGroup (name : String) : Enrols (addGroup name) := by
  refine enrols_of_ends fun s => (addGroup_ends s name).mono ?_
  rintro _ _ ⟨-, -, -, rfl⟩
  exact .single (.addGroup name)

theorem enrols_addUser (username : String) (groups : List String) (primary : Option String) (createHome : Bool) :
    Enrols (addUser username groups primary createHome) := by
  refine enrols_of_ends fun s => (addUser_ends s username groups primary createHome).mono ?_
  rintro account t ⟨-, hName, -, hGroups, -, -, rfl, rfl⟩
  have hUsername : username ≠ "" := (Path.isPart_iff.mp (isPart_of_isAccountName hName)).1
  have hKnown : ∀ g, (Roster.ofList groups : Names).contains g = true →
      (s.groups.add (primaryOr primary username)).contains g = true := by
    intro g hg
    rw [Names.contains_add, Names.minus_eq_nil_iff.mp hGroups g hg, Bool.or_true]
  have hPrimary : (s.groups.add (primaryOr primary username)).contains (primaryOr primary username) = true := by
    rw [Names.contains_add, beq_self_eq_true, Bool.true_or]
  have hGroup : Enrolment s { s with groups := s.groups.add (primaryOr primary username) } := .addGroup _
  have hAccount := Enrolment.enlist (s := { s with groups := s.groups.add (primaryOr primary username) })
    ("/home/" ++ username) hUsername (primaryOr_ne_empty hUsername) hPrimary hKnown
  dsimp only
  split
  · exact ((Relation.ReflTransGen.single hGroup).tail hAccount).tail (.same (sameIdentity_addHome _ _ _))
  · exact (Relation.ReflTransGen.single hGroup).tail hAccount

theorem enrols_changeGroups (username : String) (groups : List String) (append : Bool) :
    Enrols (changeGroups username groups append) := by
  refine enrols_of_ends fun s => (changeGroups_ends s username groups append).mono ?_
  rintro changed t ⟨-, hGroups, account, hAccount, rfl, rfl⟩
  obtain ⟨hMem, -⟩ := Roster.find?_eq_some_iff.mp hAccount
  refine .single (.regroup hMem fun g hg => ?_)
  cases append with
  | false => exact .inr (Names.minus_eq_nil_iff.mp hGroups g hg)
  | true =>
    rcases (Bool.or_eq_true _ _).mp ((Roster.contains_union _ _ g).symm.trans hg) with hOld | hNew
    · exact .inl hOld
    · exact .inr (Names.minus_eq_nil_iff.mp hGroups g hNew)

theorem dropOwnGroup_eq (s : Session) (account : Account) :
    s.dropOwnGroup account = s ∨ s.dropOwnGroup account = { s with groups := s.groups.erase account.username } := by
  unfold dropOwnGroup
  split
  · exact .inr rfl
  · exact .inl rfl

theorem accounts_dropOwnGroup (s : Session) (account : Account) : (s.dropOwnGroup account).accounts = s.accounts := by
  rcases dropOwnGroup_eq s account with hSame | hErased
  · rw [hSame]
  · rw [hErased]

theorem run_deleteUser (s : Session) (username : String) (removeHome : Bool) :
    (deleteUser username removeHome).run s =
      match s.deletable username removeHome with
      | .error fault => (.error fault, s)
      | .ok (account, present) =>
        match (detachHome account present).run { s with accounts := s.accounts.erase username } with
        | (.error fault, t) => (.error fault, t)
        | (.ok _, t) => (.ok username, t.dropOwnGroup account) := by
  unfold deleteUser
  rw [run_bind]
  change Update.run (liftM (s.deletable username removeHome) >>= _) s = _
  cases s.deletable username removeHome with
  | error fault => rfl
  | ok found =>
    obtain ⟨account, present⟩ := found
    change Update.run (detachHome account present >>= _) _ = _
    rw [run_bind]
    dsimp only
    cases (detachHome account present).run { s with accounts := s.accounts.erase username } with
    | mk result t => cases result <;> rfl

theorem sameIdentity_detachHome (s : Session) (account : Account) (present : Bool) :
    (detachHome account present).Ends s fun _ t => SameIdentity s t := by
  unfold detachHome
  split
  · exact sameIdentity_detach s account.home
  · exact ends_pure .refl

theorem deleteUser_run (s : Session) (username : String) (removeHome : Bool) :
    ((deleteUser username removeHome).run s).2 = s ∨ s.activeUsers.contains username = false ∧
      ∃ t, SameIdentity { s with accounts := s.accounts.erase username } t ∧
        (((deleteUser username removeHome).run s).2 = t ∨
          ∃ account, ((deleteUser username removeHome).run s).2 = t.dropOwnGroup account) := by
  rw [run_deleteUser]
  cases hDeletable : s.deletable username removeHome with
  | error fault => exact .inl rfl
  | ok found =>
    obtain ⟨account, present⟩ := found
    obtain ⟨-, -, -, hActive, -, -, -⟩ := deletable_ok hDeletable
    have hDetach := sameIdentity_detachHome { s with accounts := s.accounts.erase username } account present
    refine .inr ⟨hActive, ?_⟩
    dsimp only
    cases hEnd : (detachHome account present).run { s with accounts := s.accounts.erase username } with
    | mk result t =>
      cases result with
      | ok _ => exact ⟨t, hDetach.answer _ t hEnd, .inr ⟨account, rfl⟩⟩
      | error fault =>
        -- The account is erased by now, and stays so.
        rw [hDetach.unchanged fault t hEnd]
        exact ⟨_, .refl, .inl rfl⟩

theorem enrols_deleteUser (username : String) (removeHome : Bool) : Enrols (deleteUser username removeHome) := by
  intro s
  rcases deleteUser_run s username removeHome with hSame | ⟨hActive, t, hErased, hEnd⟩
  · rw [hSame]
  · have hSteps : Enrolments s t := (Relation.ReflTransGen.single (.erase hActive)).tail (.same hErased)
    rcases hEnd with hEnd | ⟨account, hEnd⟩
    · rw [hEnd]
      exact hSteps
    · rw [hEnd]
      exact hSteps.tail (.dropOwnGroup account)

theorem enrols_switchUser (username : String) : Enrols (switchUser username) := by
  refine enrols_of_ends fun s => (switchUser_ends s username).mono ?_
  rintro _ _ ⟨hKnown, -, rfl⟩
  exact .single (.switch hKnown)

theorem enrols_steps (o : Operation) : Enrols (steps o) := by
  cases o with
  | addGroup name => exact (enrols_addGroup name).map
  | addUser username groups primary createHome => exact (enrols_addUser username groups primary createHome).map
  | changeGroups username groups append => exact (enrols_changeGroups username groups append).map
  | deleteUser username removeHome => exact (enrols_deleteUser username removeHome).map
  | switchUser username => exact (enrols_switchUser username).map
  | _ => exact enrols_of_same (sameIdentity_steps _ rfl)

end Session

end VirtualShell
