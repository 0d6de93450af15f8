import VirtualShell.Proofs.Roster
import VirtualShell.Proofs.Snapshot.Describing

/-!
# Which snapshots are accepted

A snapshot whose fields are of the right types is accepted just when its tree obeys the rules and is not too
deep, its working directory lies in the tree, and its accounts are in order.
-/
namespace VirtualShell
set_option autoImplicit false

open Draft

def UserDraft.Describes (u : UserDraft) (j : Json) : Prop := ∃ fields, j = .object fields ∧
  Has fields "username" IsName u.username ∧ Has fields "primary_group" IsName u.primaryGroup ∧
    HasOr fields "supplemental_groups" [] (IsList IsText) u.supplemental ∧ HasOr fields "home" "" IsText u.home

theorem UserDraft.Describes.named {u : UserDraft} {j : Json} (h : u.Describes j) :
    u.username ≠ "" ∧ u.primaryGroup ≠ "" := by
  obtain ⟨fields, -, ⟨_, -, -, hUsername⟩, ⟨_, -, -, hPrimary⟩, -⟩ := h
  exact ⟨hUsername, hPrimary⟩

namespace Snapshot

structure Fields (m : Snapshot) (fields : Json.Fields) : Prop where
  version : HasOr fields "version" currentVersion IsInteger m.version
  tree : Has fields "tree" Draft.Describes m.tree
  cwd : HasMaybe fields "cwd" IsText m.cwd
  username : HasMaybe fields "username" IsText m.username
  users : HasMaybe fields "users" (IsList UserDraft.Describes) m.users
  groups : HasMaybe fields "groups" (IsList IsText) m.groups

/-- All fields, of the nodes and users as well, are of the right types, and the snapshot says what they say. -/
def Describes (m : Snapshot) (blob : Json) : Prop := ∃ fields, blob = .object fields ∧ m.Fields fields

structure Lawful (m : Snapshot) : Prop where
  root : m.tree.kind = .dir ∧ m.tree.name = "/"
  nodes : m.tree.Orderly
  cwd : ∀ cwd, m.cwd = some cwd →
    cwd.toList.head? = some '/' ∧ ∀ ps, ps <+: Path.split cwd → ∃ d, m.tree.At ps d ∧ d.kind = .dir
  users : ∀ users, m.users = some users → (users.map UserDraft.username).Nodup ∧
    (∀ u, m.username = some u → u ∈ users.map UserDraft.username) ∧
      ∀ groups, m.groups = some groups → ∀ u ∈ users, u.primaryGroup ∈ groups ∧ ∀ g ∈ u.supplemental, g ∈ groups

theorem reads_readUser : Reads readUser UserDraft.Describes := by
  intro place j u
  cases j with
  | object fields =>
    rw [readUser, UserDraft.Describes]
    simp only [Result.bind_eq_ok_iff, required_eq_ok_iff reads_nonemptyText, defaulted_eq_ok_iff reads_text,
      defaulted_eq_ok_iff (reads_list reads_text)]
    constructor
    · rintro ⟨_, hUsername, _, hPrimary, _, hSupplemental, _, hHome, ⟨⟩⟩
      exact ⟨fields, rfl, hUsername, hPrimary, hSupplemental, hHome⟩
    · rintro ⟨_, ⟨⟩, hUsername, hPrimary, hSupplemental, hHome⟩
      exact ⟨_, hUsername, _, hPrimary, _, hSupplemental, _, hHome, rfl⟩
  | _ => simp [readUser, UserDraft.Describes, faultAt]

theorem contains_groups_toAccount (u : UserDraft) (g : String) :
    u.toAccount.groups.contains g = true ↔ u.primaryGroup = g ∨ g ∈ u.supplemental := by
  rw [Account.contains_groups, Bool.or_eq_true, beq_iff_eq]
  show u.primaryGroup = g ∨ (Roster.ofList u.supplemental : Names).contains g = true ↔ _
  rw [Roster.contains_ofList]
  simp

theorem groupFault?_eq_none_iff {groups : Names} {users : List UserDraft} : groupFault? groups users = none ↔
    ∀ u ∈ users, ∀ g, u.toAccount.groups.contains g = true → groups.contains g = true := by
  induction users with
  | nil => simp [groupFault?]
  | cons u users ih =>
    rw [groupFault?, List.forall_mem_cons, ← Names.minus_eq_nil_iff]
    split
    · rename_i hNone
      rw [ih, and_iff_right hNone]
    · rename_i hSome
      exact iff_of_false (by simp) fun h => hSome h.1

theorem userFault?_eq_none_iff {m : Snapshot} {users : List UserDraft} : m.userFault? users = none ↔
    (users.map UserDraft.username).Nodup ∧ (∀ u, m.username = some u → u ∈ users.map UserDraft.username) ∧
      ∀ groups, m.groups = some groups → ∀ u ∈ users, u.primaryGroup ∈ groups ∧ ∀ g ∈ u.supplemental, g ∈ groups := by
  have hGroups : ∀ groups, groupFault? (Roster.ofList groups) users = none ↔
      ∀ u ∈ users, u.primaryGroup ∈ groups ∧ ∀ g ∈ u.supplemental, g ∈ groups := by
    intro groups
    simp only [groupFault?_eq_none_iff, contains_groups_toAccount, Roster.contains_ofList, id_eq, List.any_beq',
      List.contains_iff_mem, or_imp, forall_and, forall_eq']
  have hRest : (m.groups.bind fun groups => groupFault? (Roster.ofList groups) users) = none ↔
      ∀ groups, m.groups = some groups → ∀ u ∈ users, u.primaryGroup ∈ groups ∧ ∀ g ∈ u.supplemental, g ∈ groups := by
    cases m.groups with
    | none => simp
    | some groups => simp [hGroups]
  rw [userFault?]
  by_cases hDistinct : (users.map UserDraft.username).Nodup
  · rw [if_neg (by simpa using hDistinct), and_iff_right hDistinct, ← hRest]
    cases m.username with
    | none => simp
    | some username =>
      by_cases hMem : username ∈ users.map UserDraft.username
      · simp [Option.filter, -List.mem_map, hMem]
      · simp [Option.filter, -List.mem_map, hMem]
  · simp [hDistinct]

theorem ruleFault?_eq_none_iff {m : Snapshot} (h : m.tree.Orderly) : m.ruleFault? = none ↔
    (m.tree.kind = .dir ∧ m.tree.name = "/") ∧
      (∀ cwd, m.cwd = some cwd →
        cwd.toList.head? = some '/' ∧ ∀ ps, ps <+: Path.split cwd → ∃ d, m.tree.At ps d ∧ d.kind = .dir) ∧
      ∀ users, m.users = some users → m.userFault? users = none := by
  rw [ruleFault?]
  by_cases hRoot : m.tree.kind = .dir ∧ m.tree.name = "/"
  · have hCwd : ∀ cwd, isDirectory m.tree cwd = true ↔
        cwd.toList.head? = some '/' ∧ ∀ ps, ps <+: Path.split cwd → ∃ d, m.tree.At ps d ∧ d.kind = .dir := by
      intro cwd
      rw [isDirectory, Bool.and_eq_true, beq_iff_eq, leadsToDirectory_iff h hRoot.1]
    have hUsers : m.users.bind m.userFault? = none ↔ ∀ users, m.users = some users → m.userFault? users = none := by
      cases m.users with
      | none => simp
      | some users => simp
    simp only [← hCwd]
    rw [if_neg (by simp [hRoot]), and_iff_right hRoot, ← hUsers]
    cases m.cwd with
    | none => simp
    | some cwd => cases hDir : isDirectory m.tree cwd <;> simp [Option.filter, hDir]
  · have hFault : (m.tree.kind != .dir || m.tree.name != "/") = true := by
      rcases not_and_or.mp hRoot with hKind | hName
      · simp [hKind]
      · simp [hName]
    rw [if_pos hFault]
    simp [hRoot]

theorem lawful_iff {m : Snapshot} : m.Lawful ↔ m.tree.Orderly ∧ m.ruleFault? = none := by
  constructor
  · rintro ⟨hRoot, hNodes, hCwd, hUsers⟩
    exact ⟨hNodes, (ruleFault?_eq_none_iff hNodes).mpr
      ⟨hRoot, hCwd, fun users hm => userFault?_eq_none_iff.mpr (hUsers users hm)⟩⟩
  · rintro ⟨hNodes, hRules⟩
    obtain ⟨hRoot, hCwd, hUsers⟩ := (ruleFault?_eq_none_iff hNodes).mp hRules
    exact ⟨hRoot, hNodes, hCwd, fun users hm => userFault?_eq_none_iff.mp (hUsers users hm)⟩

theorem requiredTree_eq_ok_iff {room : Nat} {fields : Json.Fields} {d : Draft} :
    required fields [] "tree" (Draft.read room) = .ok d ↔
      Has fields "tree" Draft.Describes d ∧ d.Orderly ∧ d.Fits room := by
  rw [required, Has]
  cases Json.Fields.get? fields "tree" with
  | none => simp [faultAt]
  | some j => simp [Draft.read_eq_ok_iff d]

/-- A snapshot is read if it describes something, that obeys the rules, and there is room for its tree. -/
theorem readWithin_eq_ok_iff {room : Nat} {blob : Json} {m : Snapshot} :
    readWithin room blob = .ok m ↔ m.Describes blob ∧ m.Lawful ∧ m.tree.Fits room := by
  cases blob with
  | object fields =>
    rw [readWithin, lawful_iff]
    split
    · rename_i hMissing
      constructor
      · rintro ⟨⟩
      · rintro ⟨⟨_, ⟨⟩, hFields⟩, -⟩
        obtain ⟨j, hTree, -⟩ := hFields.tree
        rw [contains_eq_isSome, hTree] at hMissing
        cases hMissing
    · simp only [Result.bind_eq_ok_iff, defaulted_eq_ok_iff reads_integer, requiredTree_eq_ok_iff,
        optional_eq_ok_iff reads_text, optional_eq_ok_iff (reads_list reads_readUser),
        optional_eq_ok_iff (reads_list reads_text)]
      constructor
      · rintro ⟨version, hVersion, tree, ⟨hTree, hOrderly, hFits⟩, cwd, hCwd, username, hUsername, users, hUsers,
          groups, hGroups, h⟩
        split at h
        · cases h
        · rename_i hRules
          cases h
          exact ⟨⟨fields, rfl, hVersion, hTree, hCwd, hUsername, hUsers, hGroups⟩, ⟨hOrderly, hRules⟩, hFits⟩
      · rintro ⟨⟨_, ⟨⟩, hFields⟩, ⟨hOrderly, hRules⟩, hFits⟩
        refine ⟨_, hFields.version, _, ⟨hFields.tree, hOrderly, hFits⟩, _, hFields.cwd, _, hFields.username,
          _, hFields.users, _, hFields.groups, ?_⟩
        rw [hRules]
        rfl
  | _ => simp [readWithin, Describes]

theorem read_eq_ok_iff {blob : Json} {m : Snapshot} :
    read blob = .ok m ↔ m.Describes blob ∧ m.Lawful ∧ m.tree.Fits deepest :=
  readWithin_eq_ok_iff

theorem describes_unique {m m' : Snapshot} {blob : Json} (h : m.Describes blob) (h' : m'.Describes blob) : m = m' := by
  obtain ⟨version, tree, cwd, username, users, groups⟩ := m
  obtain ⟨version', tree', cwd', username', users', groups'⟩ := m'
  obtain ⟨fields, rfl, h⟩ := h
  obtain ⟨_, ⟨⟩, h'⟩ := h'
  have hNames : Relator.LeftUnique (IsList IsText) := (reads_list reads_text).leftUnique
  have hVersion : version = version' := h.version.unique reads_integer.leftUnique h'.version
  have hTree : tree = tree' := h.tree.unique (fun d e j => Draft.describes_unique d e j) h'.tree
  have hCwd : cwd = cwd' := h.cwd.unique reads_text.leftUnique h'.cwd
  have hUsername : username = username' := h.username.unique reads_text.leftUnique h'.username
  have hUsers : users = users' := h.users.unique (reads_list reads_readUser).leftUnique h'.users
  have hGroups : groups = groups' := h.groups.unique hNames h'.groups
  rw [hVersion, hTree, hCwd, hUsername, hUsers, hGroups]

theorem Describes.users_named {m : Snapshot} {blob : Json} {users : List UserDraft} (h : m.Describes blob)
    (hUsers : m.users = some users) : ∀ u ∈ users, u.username ≠ "" ∧ u.primaryGroup ≠ "" := by
  obtain ⟨fields, rfl, hFields⟩ := h
  have hGiven := hFields.users
  unfold HasMaybe at hGiven
  split at hGiven
  · cases hUsers.symm.trans hGiven
  · cases hUsers.symm.trans hGiven
  · obtain ⟨_, hSome, js, rfl, hAll⟩ := hGiven
    cases hUsers.symm.trans hSome
    have hNamed := hAll.imp fun u j hu => And.intro hu.named hu
    exact ((List.forall₂_and_left _ _).mp hNamed).1

end Snapshot

end VirtualShell
