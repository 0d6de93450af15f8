import VirtualShell.Proofs.Mode
import VirtualShell.Proofs.Session.Edit
import VirtualShell.Proofs.Session.Users

/-!
# Operations keep sessions sound

One lemma for each operation, on the facts that the operation has found when it succeeds: its edits of
the tree, and that the accounts are sound afterwards. `steps_changed` is about all of them, `steps_kept`
about those sessions that are in a directory. An operation that fails has changed nothing.
-/
namespace VirtualShell.Session
set_option autoImplicit false

open Update

/-- A session at a node of a well-formed tree, with sound accounts. -/
structure Grounded (s : Session) : Prop where
  placed : s.Placed
  accounts : s.AccountsSound

/-- What a successful operation makes of a grounded session. -/
structure Changed (s s' : Session) : Prop where
  edits : Edits s s'
  accounts : s'.AccountsSound
  elevations : s'.elevations = s.elevations

variable {s : Session} {path : PathArg} {target : String}

theorem Sound.grounded (h : s.Sound) : s.Grounded := ⟨h.tree.placed, h.accounts⟩

theorem Grounded.changed (h : s.Grounded) : Changed s s := ⟨.refl, h.accounts, rfl⟩

theorem Changed.grounded {t : Session} (h : Changed s t) (hs : s.Grounded) : t.Grounded :=
  ⟨(h.edits.stays hs.placed).placed, h.accounts⟩

theorem Changed.trans {t u : Session} (h : Changed s t) (h' : Changed t u) : Changed s u :=
  ⟨.trans h.edits h'.edits, h'.accounts, h'.elevations.trans h.elevations⟩

/-- The tree or the place in it has changed, and nobody's account. -/
theorem Grounded.edited {t : Session} (h : s.Grounded) (hEdit : Edit s t) (hSame : SameUsers s t) : Changed s t :=
  ⟨.single hEdit, h.accounts.of_same hSame, hSame.elevations⟩

/-- Accounts have changed, or who acts, and nothing in the tree. -/
theorem AccountsSound.changed {t : Session} (h : t.AccountsSound) (hRoot : t.root = s.root) (hCwd : t.cwd = s.cwd)
    (hSwitches : s.switches ≤ t.switches) (hElevations : t.elevations = s.elevations) : Changed s t :=
  ⟨.single (.users hRoot hCwd hSwitches), h, hElevations⟩

theorem Placed.target_ok (h : s.Placed) (hTarget : s.requireWritePath path = .ok target) :
    Path.isCanonical target = true ∧ target ≠ "/" := by
  obtain ⟨_, -, -, -, -, hEq, hRoot⟩ := Path.forWriting_eq_some.mp (forWriting_of_requireWritePath hTarget)
  rw [hEq]
  exact ⟨h.isCanonical_resolve path, hEq ▸ hRoot⟩

/-- A new entry is put where the directory has none of its name. -/
theorem Grounded.addEntry {ps : List String} {m e : Node} (h : s.Grounded) (hps : Path.AreParts (ps ++ [e.name]))
    (he : e.WellFormed) (hm : s.root.get? ps = some m) (hFree : m.child? e.name = none) :
    Changed s (s.addEntry (Path.ofParts ps) e) := by
  refine h.edited (.add hps he ?_) (sameUsers_modifyAt s _ _)
  rw [Node.kindAt, Node.get?_concat, hm, Option.bind_some, hFree, Option.map_none]

theorem Grounded.addFile {text : String} {parent : Node} (h : s.Grounded)
    (hTarget : s.requireWritePath path = .ok target)
    (hParent : s.reachDirectory (Path.parentOf target) path = .ok parent)
    (hFree : parent.child? (Path.baseName target) = none) :
    Changed s (s.addEntry (Path.parentOf target) (s.newFile (Path.baseName target) text)) := by
  obtain ⟨hCanonical, hRoot⟩ := h.placed.target_ok hTarget
  obtain ⟨ps, name, hps, rfl⟩ := Path.exists_concat_of_ne_root hCanonical hRoot
  obtain ⟨hLookup, -⟩ := lookup_of_reachDirectory hParent
  rw [Path.parentOf_ofParts hps, List.dropLast_concat, lookup_ofParts hps.left] at hLookup
  rw [Path.baseName_ofParts hps] at hFree
  rw [Path.parentOf_ofParts hps, List.dropLast_concat, Path.baseName_ofParts hps]
  exact h.addEntry hps (h.accounts.newFile_wellFormed name text) hLookup hFree

theorem Grounded.touch {path : String} (h : s.Grounded) : Changed s (s.modifyAt path (Node.touch s.now)) :=
  h.edited (.alter (fun n => Node.name_touch _ n) (fun _ hm => hm.touch _)
    fun m rs => Node.kindAt_congr (Node.isDir_touch _ m) (Node.child?_touch _ m) rs) (sameUsers_modifyAt s _ _)

theorem Grounded.overwrite {path text : String} (h : s.Grounded) : Changed s (s.overwrite path text) :=
  h.edited (.alter (fun n => by simp) (fun _ hm => (hm.setContent _).touch _)
    fun m rs => Node.kindAt_congr (by simp) (by simp) rs) (sameUsers_modifyAt s _ _)

theorem Grounded.mapInfo {path : String} {g : Info → Info} (h : s.Grounded)
    (hName : ∀ i : Info, (g i).name = i.name) (hValid : ∀ i : Info, i.Valid → (g i).Valid) :
    Changed s (s.modifyAt path (Node.mapInfo g)) := by
  refine h.edited (.alter (fun n => ?_) (fun _ hm => hm.mapInfo (hValid _ hm.info_valid))
    fun m rs => Node.kindAt_congr (Node.isDir_mapInfo g m) (Node.child?_mapInfo g m) rs) (sameUsers_modifyAt s _ _)
  rw [Node.name, Node.info_mapInfo, hName, Node.name]

theorem Grounded.mapAll {path : String} {g : Info → Info} (h : s.Grounded)
    (hName : ∀ i : Info, (g i).name = i.name) (hValid : ∀ i : Info, i.Valid → (g i).Valid) :
    Changed s (s.modifyAt path (Node.mapAll g)) :=
  h.edited (.alter (Node.keepsName_mapAll hName) (fun _ hm => hm.mapAll hName hValid) (Node.kindAt_mapAll hName))
    (sameUsers_modifyAt s _ _)

theorem changeDirectory_changed (h : s.Grounded) : (changeDirectory path).Ends s fun _ s' => Changed s s' := by
  refine (changeDirectory_ends s path).mono ?_
  rintro target _ ⟨rfl, n, hn, -, rfl⟩
  obtain ⟨hLookup, hDir⟩ := lookup_of_reachDirectory hn
  obtain ⟨ps, hps, hTarget⟩ := Path.isCanonical_iff.mp (h.placed.isCanonical_resolve (orHome path))
  rw [hTarget, lookup_ofParts hps] at hLookup
  rw [hTarget]
  refine h.edited (.enter hps ?_) ⟨rfl, rfl, rfl, rfl⟩
  exact Node.kindAt_of_get? hLookup hDir

theorem createFile_changed (content : String) (h : s.Grounded) :
    (createFile path content).Ends s fun _ s' => Changed s s' := by
  refine (createFile_ends s path content).mono ?_
  rintro target s' ⟨hTarget, parent, hParent, ⟨i, c, -, -, hs'⟩ | ⟨hFree, -, hs'⟩⟩
  · rw [hs']
    exact h.touch
  · rw [hs']
    exact h.addFile hTarget hParent hFree

theorem createDirectory_changed (parents : Bool) (h : s.Grounded) :
    (createDirectory path parents).Ends s fun _ s' => Changed s s' := by
  refine (createDirectory_ends s path parents).mono ?_
  rintro target s' ⟨hTarget, plan, hPlan, hs'⟩
  split at hs'
  · rw [hs']
    exact h.changed
  · rw [hs']
    exact h.changed
  · rename_i place n p ps
    obtain ⟨-, hs'⟩ := hs'
    obtain ⟨hCanonical, -⟩ := h.placed.target_ok hTarget
    obtain ⟨done, q, qs, hRest, hParts, hPlace, hn, -, hFree⟩ := planDirectories_missing hPlan
    cases hRest
    rw [List.nil_append] at hPlace
    subst hPlace
    have hParts' := Path.areParts_split hCanonical
    rw [hParts] at hParts'
    obtain ⟨hWellFormed, hName⟩ := h.accounts.newChain_wellFormed hParts'.right
    rw [hs']
    refine h.addEntry ?_ hWellFormed hn ?_
    · rw [hName]
      exact hParts'.left.concat (hParts'.right p List.mem_cons_self)
    · rw [hName]
      exact hFree

theorem writeFile_changed (content : String) (append : Bool) (h : s.Grounded) :
    (writeFile path content append).Ends s fun _ s' => Changed s s' := by
  refine (writeFile_ends s path content append).mono ?_
  rintro target s' ⟨hTarget, parent, hParent, ⟨i, c, -, -, hs'⟩ | ⟨hFree, -, hs'⟩⟩
  · rw [hs']
    exact h.overwrite
  · rw [hs']
    exact h.addFile hTarget hParent hFree

theorem Grounded.detached (h : s.Grounded) (hTarget : Path.isCanonical target = true) (hRoot : target ≠ "/") :
    Changed s (s.detached target) := by
  obtain ⟨ps, name, hps, rfl⟩ := Path.exists_concat_of_ne_root hTarget hRoot
  exact h.edited (.detach hps) (sameUsers_detached s _)

theorem remove_changed (recursive : Bool) (h : s.Grounded) :
    (remove path recursive).Ends s fun _ s' => Changed s s' := by
  refine (remove_ends s path recursive).mono ?_
  rintro target s' ⟨rfl, hRoot, n, parent, -, -, -, -, -, -, hs'⟩
  rw [hs']
  exact h.detached (h.placed.isCanonical_resolve path) hRoot

theorem removeDirectory_changed (h : s.Grounded) : (removeDirectory path).Ends s fun _ s' => Changed s s' := by
  refine (removeDirectory_ends s path).mono ?_
  rintro target s' ⟨rfl, hRoot, n, parent, -, -, -, -, -, -, hs'⟩
  rw [hs']
  exact h.detached (h.placed.isCanonical_resolve path) hRoot

theorem move_changed (source dest : PathArg) (h : s.Grounded) : (move source dest).Ends s fun _ s' => Changed s s' := by
  refine (move_ends s source dest).mono ?_
  rintro final s' ⟨hRoot, n, directory, name, hn, -, hDest, hFinal, ⟨-, hs'⟩ | ⟨-, hOutside, -, parent, target, -,
    hTarget, -, -, hFree, hs'⟩⟩
  · rw [hs']
    exact h.changed
  · rw [hs']
    refine h.edited ?_ (sameUsers_moved s _ n directory name)
    obtain ⟨ss, hss, hSource, hNode⟩ := source_parts h.placed.canonical hRoot hn
    obtain ⟨ds, hds, rfl⟩ :=
      destination_parts h.placed.canonical h.placed.isDir (hss.right _ (List.mem_singleton_self _)) hDest
    obtain ⟨hLookup, hDir⟩ := lookup_of_reachDirectory hTarget
    rw [lookup_ofParts hds.left] at hLookup
    rw [hFinal, Path.join_ofParts hds.left, hSource] at hOutside
    rw [hSource]
    refine .move hss hds hNode ?_ ?_ (kindAt_of_not_occupied hLookup hFree)
    · exact Node.kindAt_of_get? hLookup hDir
    · intro hPrefix
      rw [(Path.isWithin_iff hds hss).mpr hPrefix] at hOutside
      cases hOutside

theorem copy_changed (source dest : PathArg) (recursive : Bool) (h : s.Grounded) :
    (copy source dest recursive).Ends s fun _ s' => Changed s s' := by
  refine (copy_ends s source dest recursive).mono ?_
  rintro final s' ⟨n, directory, name, hn, -, -, hDest, hFinal, hOutside, -, -, target, hTarget,
    ⟨e, -, -, -, -, hs'⟩ | ⟨hFree, -, hs'⟩⟩
  · rw [hs']
    exact h.overwrite
  · rw [hs']
    have hRoot := ne_root_of_outside h.placed.isDir hn hOutside
    obtain ⟨ss, hss, -, hNode⟩ := source_parts h.placed.canonical hRoot hn
    obtain ⟨ds, hds, rfl⟩ :=
      destination_parts h.placed.canonical h.placed.isDir (hss.right _ (List.mem_singleton_self _)) hDest
    obtain ⟨hLookup, -⟩ := lookup_of_reachDirectory hTarget
    rw [lookup_ofParts hds.left] at hLookup
    have hName : (s.cloned n name).name = name := Node.name_rename name _
    refine h.addEntry ?_ (h.accounts.cloned_wellFormed (h.placed.wellFormed.get? hNode) name) hLookup ?_
    · rw [hName]
      exact hds
    · rw [hName]
      exact hFree

theorem changeMode_changed (mode : String) (h : s.Grounded) :
    (changeMode path mode).Ends s fun _ s' => Changed s s' := by
  refine (changeMode_ends s path mode).mono ?_
  rintro permissions s' ⟨n, hn, -, hMode, hs'⟩
  have hCurrent := (h.placed.wellFormed.get? (lookup_of_reach hn)).info_valid.permissions
  have hPermissions := Mode.isPermissions_apply hCurrent hMode
  rw [hs']
  refine h.mapInfo (fun _ => rfl) ?_
  exact fun i hi => ⟨hPermissions, hi.owner, hi.group⟩

theorem changeOwner_changed (spec : String) (recursive : Bool) (h : s.Grounded) :
    (changeOwner path spec recursive).Ends s fun _ s' => Changed s s' := by
  refine (changeOwner_ends s path spec recursive).mono ?_
  rintro target s' ⟨-, -, hOwner, hGroup, n, -, -, hs'⟩
  have hValid := fun i hi => h.accounts.applyTo_valid (i := i) hi hOwner hGroup
  rw [hs']
  cases recursive with
  | false => exact h.mapInfo (fun _ => rfl) hValid
  | true => exact h.mapAll (fun _ => rfl) hValid

theorem addGroup_changed (name : String) (h : s.Grounded) : (addGroup name).Ends s fun _ s' => Changed s s' := by
  refine (addGroup_ends s name).mono ?_
  rintro _ s' ⟨-, hName, -, hs'⟩
  rw [hs']
  have hne := (Path.isPart_iff.mp (isPart_of_isAccountName hName)).1
  exact (h.accounts.addGroup hne).changed rfl rfl (Nat.le_refl _) rfl

theorem primaryOr_ne {username : String} {primary : Option String} (h : s.AccountsSound) (hName : username ≠ "")
    (hPrimary : s.requirePrimary primary = .ok ()) : primaryOr primary username ≠ "" := by
  unfold primaryOr
  split
  · exact hName
  · exact hName
  · rename_i group hne
    unfold requirePrimary at hPrimary
    dsimp only at hPrimary
    split at hPrimary
    · rename_i hKnown
      exact h.group_ne_of_contains hKnown
    · cases hPrimary

theorem create_valid {username group : String} {groups known : Names} (hName : isAccountName username = true)
    (hGroup : group ≠ "") (hKnown : ∀ g, groups.contains g = true → known.contains g = true) :
    (Account.create username group groups ("/home/" ++ username)).Valid (known.add group) := by
  have hParts := areParts_usualHome hName
  have hCreate : (Account.create username group groups ("/home/" ++ username)).home =
      Path.ofParts ["home", username] := by
    rw [Account.home_create (usualHome_ne username), usualHome_eq]
  refine ⟨(Path.isPart_iff.mp (isPart_of_isAccountName hName)).1, hGroup, ?_, ?_, ?_⟩
  · rw [hCreate]
    exact Path.isCanonical_ofParts hParts
  · rw [hCreate]
    exact fun hRoot => List.cons_ne_nil _ _ ((Path.ofParts_eq_root hParts).mp hRoot)
  · intro g hg
    rw [Account.contains_groups, Bool.or_eq_true] at hg
    rw [Names.contains_add, Bool.or_eq_true]
    exact hg.imp_right (hKnown g)

theorem Grounded.addHome {username group : String} (h : s.Grounded) (hName : Path.isPart username = true)
    (hGroup : group ≠ "") : Changed s (s.addHome username group) := by
  have hHome : Path.AreParts ["home"] := Path.AreParts.nil.cons (by decide)
  have hText : "/home" = Path.ofParts ["home"] := by decide
  unfold Session.addHome
  split
  · exact h.changed
  · rename_i hNone
    rw [hText, lookup_ofParts hHome, Bool.not_eq_true, Option.isSome_eq_false_iff,
      Option.isNone_iff_eq_none] at hNone
    have hFree : s.root.kindAt (["home"] ++ [username]) = none := by
      rw [Node.kindAt, Node.get?_concat, hNone, Option.map_none]
    have hPermissions : Draft.isPermissions "rwxr-xr-x" = true := by decide
    rw [hText]
    refine h.edited (.add (hHome.concat hName) ?_ hFree) (sameUsers_modifyAt s _ _)
    exact .dir ⟨hPermissions, (Path.isPart_iff.mp hName).1, hGroup⟩ List.Pairwise.nil (by simp) (by simp)

theorem addUser_changed (username : String) (groups : List String) (primary : Option String) (createHome : Bool)
    (h : s.Grounded) : (addUser username groups primary createHome).Ends s fun _ s' => Changed s s' := by
  refine (addUser_ends s username groups primary createHome).mono ?_
  rintro account s' ⟨-, hName, -, hGroups, hPrimary, -, hAccount, hs'⟩
  have hPart := isPart_of_isAccountName hName
  have hPrimary := primaryOr_ne h.accounts (Path.isPart_iff.mp hPart).1 hPrimary
  have hValid := create_valid hName hPrimary (Names.minus_eq_nil_iff.mp hGroups)
  rw [← hAccount] at hValid
  have hAdded : Changed s { s with groups := s.groups.add (primaryOr primary username),
                                   accounts := s.accounts.insert account } :=
    ((h.accounts.addGroup hPrimary).insert hValid).changed rfl rfl (Nat.le_refl _) rfl
  rw [hs']
  dsimp only
  split
  · exact hAdded.trans ((hAdded.grounded h).addHome hPart hPrimary)
  · exact hAdded

theorem changeGroups_changed (username : String) (groups : List String) (append : Bool) (h : s.Grounded) :
    (changeGroups username groups append).Ends s fun _ s' => Changed s s' := by
  refine (changeGroups_ends s username groups append).mono ?_
  rintro changed s' ⟨-, hGroups, account, hAccount, hChanged, hs'⟩
  rw [hs']
  refine AccountsSound.changed (h.accounts.insert ?_) rfl rfl (Nat.le_refl _) rfl
  obtain ⟨⟨hUsername, hPrimary, hHome, hRoot, hKnown⟩, -⟩ := h.accounts.valid_of_find? hAccount
  have hWanted := Names.minus_eq_nil_iff.mp hGroups
  rw [hChanged]
  refine ⟨hUsername, hPrimary, hHome, hRoot, ?_⟩
  intro g hg
  rw [Account.contains_groups, Bool.or_eq_true] at hg
  simp only [Account.contains_groups, Bool.or_eq_true] at hKnown
  rcases hg with hg | hg
  · exact hKnown g (.inl hg)
  · cases append with
    | false => exact hWanted g hg
    | true =>
      rcases (Bool.or_eq_true _ _).mp ((Roster.contains_union _ _ g).symm.trans hg) with hg | hg
      · exact hKnown g (.inr hg)
      · exact hWanted g hg

theorem switchUser_changed (username : String) (h : s.Grounded) :
    (switchUser username).Ends s fun _ s' => Changed s s' := by
  refine (switchUser_ends s username).mono ?_
  rintro _ s' ⟨hKnown, -, hs'⟩
  rw [hs']
  obtain ⟨hAdmin, -, hElevations, hAccount, hGroup⟩ := h.accounts
  have hSwitched : AccountsSound { s with username := username, switches := s.switches + 1 } :=
    ⟨hAdmin, hKnown, hElevations, hAccount, hGroup⟩
  exact hSwitched.changed rfl rfl (Nat.le_succ _) rfl

/-- The home directory of a known account can be taken out of the tree if it is there. -/
theorem Grounded.exists_home_entry {username : String} {account : Account} (h : s.Grounded)
    (hFound : s.accounts.find? username = some account) (hSome : (s.lookup account.home).isSome = true) :
    ∃ e, (s.lookup (Path.parentOf account.home)).bind (·.child? (Path.baseName account.home)) = some e := by
  obtain ⟨hValid, -⟩ := h.accounts.valid_of_find? hFound
  obtain ⟨ps, name, hps, hHome⟩ := Path.exists_concat_of_ne_root hValid.home hValid.home_ne_root
  obtain ⟨e, he⟩ := Option.isSome_iff_exists.mp hSome
  rw [hHome, lookup_ofParts hps, Node.get?_concat] at he
  rw [hHome, Path.parentOf_ofParts hps, List.dropLast_concat, lookup_ofParts hps.left, Path.baseName_ofParts hps]
  exact ⟨e, he⟩

theorem Changed.dropOwnGroup {t : Session} (h : Changed s t) (account : Account) :
    Changed s (t.dropOwnGroup account) := by
  have hAccounts := h.accounts.dropOwnGroup account
  refine h.trans (hAccounts.changed ?_ ?_ ?_ ?_)
  all_goals
    unfold Session.dropOwnGroup
    split
  all_goals first | exact Nat.le_refl _ | rfl

theorem deleteUser_changed (username : String) (removeHome : Bool) (h : s.Grounded) :
    (deleteUser username removeHome).Ends s fun _ s' => Changed s s' := by
  refine (deleteUser_ends fun account hFound hSome _ _ => h.exists_home_entry hFound hSome).mono ?_
  rintro _ s' ⟨account, present, hDeletable, hs'⟩
  obtain ⟨-, hFound, hAdmin, hActive, -, -, -⟩ := deletable_ok hDeletable
  obtain ⟨hValid, -⟩ := h.accounts.valid_of_find? hFound
  have hErased : Changed s { s with accounts := s.accounts.erase username } :=
    (h.accounts.erase hAdmin hActive).changed rfl rfl (Nat.le_refl _) rfl
  rw [hs']
  apply Changed.dropOwnGroup
  split
  · exact hErased.trans ((hErased.grounded h).detached hValid.home hValid.home_ne_root)
  · exact hErased

theorem steps_changed (o : Operation) (h : s.Grounded) : (steps o).Ends s fun _ s' => Changed s s' := by
  cases o with
  | stat path => exact ends_map (ends_look fun _ _ => h.changed)
  | list path hidden => exact ends_map (ends_look fun _ _ => h.changed)
  | changeDirectory path => exact ends_map (changeDirectory_changed h)
  | read path => exact ends_map (ends_look fun _ _ => h.changed)
  | createFile path content => exact ends_map (createFile_changed content h)
  | createDirectory path parents => exact ends_map (createDirectory_changed parents h)
  | write path content append => exact ends_map (writeFile_changed content append h)
  | remove path recursive => exact ends_map (remove_changed recursive h)
  | removeDirectory path => exact ends_map (removeDirectory_changed h)
  | move source dest => exact ends_map (move_changed source dest h)
  | copy source dest recursive => exact ends_map (copy_changed source dest recursive h)
  | changeMode path mode => exact ends_map (changeMode_changed mode h)
  | changeOwner path spec recursive => exact ends_map (changeOwner_changed spec recursive h)
  | addGroup name => exact ends_map (addGroup_changed name h)
  | addUser username groups primary createHome =>
    exact ends_map (addUser_changed username groups primary createHome h)
  | changeGroups username groups append => exact ends_map (changeGroups_changed username groups append h)
  | deleteUser username removeHome => exact ends_map (deleteUser_changed username removeHome h)
  | switchUser username => exact ends_map (switchUser_changed username h)

/-- What a successful operation makes of a sound session. -/
structure Kept (s s' : Session) : Prop where
  sound : s'.Sound
  elevations : s'.elevations = s.elevations

theorem Changed.kept {t : Session} (h : Changed s t) (hs : s.Sound) : Kept s t := by
  obtain ⟨hPlaced, hKind⟩ := h.edits.stays hs.tree.placed
  rw [hs.tree.placeKind, or_self] at hKind
  exact ⟨⟨hPlaced.treeSound hKind, h.accounts⟩, h.elevations⟩

theorem steps_kept (o : Operation) (h : s.Sound) : (steps o).Ends s fun _ s' => Kept s s' :=
  (steps_changed o h.grounded).mono fun _ _ hChanged => hChanged.kept h

end VirtualShell.Session
