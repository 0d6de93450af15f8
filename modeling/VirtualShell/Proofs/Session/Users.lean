import VirtualShell.Proofs.Session.AccountOperations
import VirtualShell.Proofs.Session.Sound

/-!
# Sound accounts

Whoever acts has a name and a group, so that the nodes he makes are well-formed. The second half says
what happens to the accounts when the table of them changes.
-/
namespace VirtualShell
set_option autoImplicit false

/-- Apart from a newline at its end a name has only name characters, the first of them one that may start it. -/
theorem exists_of_isAccountName {name : String} (h : isAccountName name = true) :
    ∃ c cs, name.toList = c :: cs ∧ isNameStart c = true ∧ ∀ d ∈ cs, isNameChar d = true ∨ d = '\n' := by
  unfold isAccountName at h
  split at h
  · cases h
  · rename_i c cs hName
    dsimp only at h
    rw [Bool.and_eq_true, Bool.and_eq_true] at h
    obtain ⟨⟨hStart, -⟩, hRest⟩ := h
    refine ⟨c, cs, hName, hStart, ?_⟩
    intro d hd
    split at hRest
    · rename_i hLast
      obtain ⟨ds, rfl⟩ := List.getLast?_eq_some_iff.mp (beq_iff_eq.mp hLast)
      rw [List.dropLast_concat, List.all_eq_true] at hRest
      rcases List.mem_append.mp hd with hd | hd
      · exact .inl (hRest d hd)
      · exact .inr (List.mem_singleton.mp hd)
    · exact .inl (List.all_eq_true.mp hRest d hd)

theorem isPart_of_isAccountName {name : String} (h : isAccountName name = true) : Path.isPart name = true := by
  have hSlash : isNameChar '/' = false := by decide
  have hDot : isNameStart '.' = false := by decide
  obtain ⟨c, cs, hName, hStart, hRest⟩ := exists_of_isAccountName h
  have hFirst : ∀ text : String, text.toList.head? ≠ some c → name ≠ text := by
    rintro text hText rfl
    rw [hName] at hText
    exact hText rfl
  have hNotDot : some '.' ≠ some c := by
    rintro ⟨⟩
    rw [hDot] at hStart
    cases hStart
  refine Path.isPart_iff.mpr ⟨hFirst "" nofun, hFirst "." hNotDot, hFirst ".." hNotDot, ?_⟩
  rw [hName]
  intro hMem
  rcases List.mem_cons.mp hMem with rfl | hMem
  · revert hStart
    decide
  · rcases hRest '/' hMem with hChar | hChar
    · rw [hSlash] at hChar
      cases hChar
    · cases hChar

theorem usualHome_eq (username : String) : "/home/" ++ username = Path.ofParts ["home", username] := by
  simp [Path.ofParts, ← String.append_assoc]

theorem usualHome_ne (username : String) : "/home/" ++ username ≠ "" := by
  rw [usualHome_eq]
  simp [Path.ofParts]

theorem areParts_usualHome {username : String} (h : isAccountName username = true) :
    Path.AreParts ["home", username] :=
  (Path.AreParts.nil.cons (isPart_of_isAccountName h)).cons (by decide)

theorem Account.home_create {username group home : String} {groups : Names} (h : home ≠ "") :
    (Account.create username group groups home).home = home := by
  simp [Account.create, h]

namespace Session

structure SameUsers (s t : Session) : Prop where
  accounts : t.accounts = s.accounts
  groups : t.groups = s.groups
  username : t.username = s.username
  elevations : t.elevations = s.elevations

theorem sameUsers_modifyAt (s : Session) (path : String) (f : Node → Node) : SameUsers s (s.modifyAt path f) :=
  ⟨rfl, rfl, rfl, rfl⟩

namespace SameUsers

variable {s t : Session}

theorem modifyAt (h : SameUsers s t) (path : String) (f : Node → Node) : SameUsers s (t.modifyAt path f) :=
  ⟨h.accounts, h.groups, h.username, h.elevations⟩

theorem setCwd (h : SameUsers s t) (cwd : String) : SameUsers s { t with cwd := cwd } :=
  ⟨h.accounts, h.groups, h.username, h.elevations⟩

end SameUsers

theorem sameUsers_detached (s : Session) (target : String) : SameUsers s (s.detached target) := by
  unfold detached stepOut
  have h : SameUsers s (s.removeEntry (Path.parentOf target) (Path.baseName target)) :=
    sameUsers_modifyAt s _ _
  split
  · exact h.setCwd _
  · exact h

theorem sameUsers_moved (s : Session) (source : String) (n : Node) (directory name : String) :
    SameUsers s (s.moved source n directory name) := by
  unfold moved follow
  have h : SameUsers s ((s.removeEntry (Path.parentOf source) n.name).addEntry directory (n.rename name)) :=
    (sameUsers_modifyAt s _ _).modifyAt _ _
  split
  · exact h.setCwd _
  · exact h

/-- A group that an account is in is not dropped. -/
theorem known_dropOwnGroup {s : Session} {a : Account} {g : String} (account : Account) (ha : a ∈ s.accounts.members)
    (hg : a.groups.contains g = true) (hKnown : s.groups.contains g = true) :
    (s.dropOwnGroup account).groups.contains g = true := by
  unfold dropOwnGroup
  split
  · rename_i hOwn
    obtain ⟨hName, hUnused⟩ := (Bool.and_eq_true _ _).mp hOwn
    have hne : g ≠ account.username := by
      rintro rfl
      rw [beq_iff_eq.mp hName, Bool.not_eq_true', List.any_eq_false] at hUnused
      exact hUnused a ha hg
    show (s.groups.erase account.username).contains g = true
    rw [Roster.contains_erase, hKnown, Bool.and_true]
    exact bne_iff_ne.mpr hne
  · exact hKnown

namespace AccountsSound

variable {s t : Session}

theorem of_same (h : s.AccountsSound) (hSame : SameUsers s t) : t.AccountsSound := by
  constructor
  · rw [hSame.accounts]
    exact h.admin
  · rw [hSame.accounts, hSame.username]
    exact h.user
  · rw [hSame.accounts, hSame.elevations]
    exact h.elevations
  · rw [hSame.accounts, hSame.groups]
    exact h.account
  · rw [hSame.groups]
    exact h.group

theorem valid_of_find? {username : String} {a : Account} (h : s.AccountsSound)
    (ha : s.accounts.find? username = some a) : a.Valid s.groups ∧ a.username = username := by
  obtain ⟨hMem, hKey⟩ := Roster.find?_eq_some_iff.mp ha
  exact ⟨h.account a hMem, hKey⟩

theorem username_ne_of_contains {username : String} (h : s.AccountsSound)
    (hKnown : s.accounts.contains username = true) : username ≠ "" := by
  obtain ⟨a, hMem, hKey⟩ := Roster.contains_iff.mp hKnown
  rw [← hKey]
  exact (h.account a hMem).username

theorem group_ne_of_contains {group : String} (h : s.AccountsSound) (hKnown : s.groups.contains group = true) :
    group ≠ "" := by
  rintro rfl
  rw [h.group] at hKnown
  cases hKnown

theorem primaryGroup_ne (h : s.AccountsSound) : s.primaryGroup ≠ "" := by
  obtain ⟨a, ha⟩ := Option.isSome_iff_exists.mp h.user
  rw [primaryGroup, account?, ha]
  exact (h.valid_of_find? ha).1.primaryGroup

theorem newInfo_valid {name permissions : String} (h : s.AccountsSound)
    (hPermissions : Draft.isPermissions permissions = true) : (s.newInfo name permissions).Valid :=
  ⟨hPermissions, h.username_ne_of_contains h.user, h.primaryGroup_ne⟩

theorem newFile_wellFormed (h : s.AccountsSound) (name content : String) :
    (s.newFile name content).WellFormed :=
  .file (h.newInfo_valid (by decide))

theorem newChain_wellFormed {p : String} {ps : List String} (h : s.AccountsSound)
    (hps : Path.AreParts (p :: ps)) :
    (s.newChain p ps).WellFormed ∧ (s.newChain p ps).name = p := by
  induction ps generalizing p with
  | nil => exact ⟨.dir (h.newInfo_valid (by decide)) List.Pairwise.nil (by simp) (by simp), rfl⟩
  | cons q qs ih =>
    have hqs : Path.AreParts (q :: qs) := fun r hr => hps r (List.mem_cons_of_mem p hr)
    obtain ⟨hWellFormed, hName⟩ := ih hqs
    refine ⟨.dir (h.newInfo_valid (by decide)) (List.pairwise_singleton _ _) ?_ ?_, rfl⟩
    · intro e he
      rw [List.mem_singleton.mp he, hName]
      exact hqs q List.mem_cons_self
    · intro e he
      rw [List.mem_singleton.mp he]
      exact hWellFormed

theorem cloned_wellFormed {n : Node} (h : s.AccountsSound) (hn : n.WellFormed) (name : String) :
    (s.cloned n name).WellFormed := by
  apply Node.WellFormed.rename
  refine hn.mapAll (fun _ => rfl) fun i hi => ?_
  exact ⟨hi.permissions, h.username_ne_of_contains h.user, h.primaryGroup_ne⟩

theorem applyTo_valid {spec : OwnerSpec} {i : Info} (h : s.AccountsSound) (hi : i.Valid)
    (hOwner : ∀ owner, spec.owner = some owner → s.accounts.contains owner = true)
    (hGroup : ∀ group, spec.group = some group → s.groups.contains group = true) :
    (OwnerSpec.applyTo spec i).Valid := by
  refine ⟨hi.permissions, ?_, ?_⟩
  · show spec.owner.getD i.owner ≠ ""
    cases hSpec : spec.owner with
    | none => exact hi.owner
    | some owner => exact h.username_ne_of_contains (hOwner owner hSpec)
  · show spec.group.getD i.group ≠ ""
    cases hSpec : spec.group with
    | none => exact hi.group
    | some group => exact h.group_ne_of_contains (hGroup group hSpec)

theorem addGroup {group : String} (h : s.AccountsSound) (hGroup : group ≠ "") :
    AccountsSound { s with groups := s.groups.add group } := by
  refine ⟨h.admin, h.user, h.elevations, fun a ha => ?_, ?_⟩
  · obtain ⟨hUsername, hPrimary, hHome, hRoot, hGroups⟩ := h.account a ha
    refine ⟨hUsername, hPrimary, hHome, hRoot, fun g hg => ?_⟩
    rw [Names.contains_add, hGroups g hg, Bool.or_true]
  · show (s.groups.add group).contains "" = false
    rw [Names.contains_add, h.group, Bool.or_false]
    exact beq_false_of_ne hGroup

/-- An account may be added, or take the place of one with the same name. -/
theorem insert {a : Account} (h : s.AccountsSound) (ha : a.Valid s.groups) :
    AccountsSound { s with accounts := s.accounts.insert a } := by
  have hKnown : ∀ u, s.accounts.contains u = true → (s.accounts.insert a).contains u = true := by
    intro u hu
    rw [Roster.contains_insert, hu, Bool.or_true]
  refine ⟨hKnown _ h.admin, hKnown _ h.user, fun u hu => hKnown u (h.elevations u hu), ?_, h.group⟩
  intro b hb
  rcases Roster.of_mem_insert hb with rfl | hb
  · exact ha
  · exact h.account b hb

/-- Nobody who acts or will act again may lose the account. -/
theorem erase {username : String} (h : s.AccountsSound) (hAdmin : username ≠ adminName)
    (hActive : s.activeUsers.contains username = false) :
    AccountsSound { s with accounts := s.accounts.erase username } := by
  have hKeep : ∀ u, u ≠ username → s.accounts.contains u = true →
      (s.accounts.erase username).contains u = true := by
    intro u hne hu
    rw [Roster.contains_erase, hu, Bool.and_true]
    exact bne_iff_ne.mpr hne
  have hActive : ∀ u ∈ s.username :: s.elevations, u ≠ username := by
    rintro u hu rfl
    rw [activeUsers, Roster.contains_ofList] at hActive
    exact List.any_eq_false.mp hActive u hu (beq_self_eq_true u)
  constructor
  · exact hKeep _ hAdmin.symm h.admin
  · exact hKeep _ (hActive _ List.mem_cons_self) h.user
  · exact fun u hu => hKeep u (hActive u (List.mem_cons_of_mem _ hu)) (h.elevations u hu)
  · exact fun a ha => h.account a (Roster.of_mem_erase ha)
  · exact h.group

theorem dropOwnGroup (h : s.AccountsSound) (account : Account) : (s.dropOwnGroup account).AccountsSound := by
  have hGroups : ∀ a ∈ s.accounts.members, a.Valid (s.dropOwnGroup account).groups := by
    intro a ha
    obtain ⟨hUsername, hPrimary, hHome, hRoot, hGroups⟩ := h.account a ha
    exact ⟨hUsername, hPrimary, hHome, hRoot, fun g hg => known_dropOwnGroup account ha hg (hGroups g hg)⟩
  unfold Session.dropOwnGroup at hGroups ⊢
  split at hGroups
  · rename_i hOwn
    rw [if_pos hOwn]
    refine ⟨h.admin, h.user, h.elevations, hGroups, ?_⟩
    show (s.groups.erase account.username).contains "" = false
    rw [Roster.contains_erase, h.group, Bool.and_false]
  · rename_i hOther
    rw [if_neg hOther]
    exact h

end AccountsSound

end Session

end VirtualShell
