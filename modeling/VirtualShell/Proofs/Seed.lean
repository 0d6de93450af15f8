import VirtualShell.Proofs.Session.Sound
import VirtualShell.Proofs.Tree.Everywhere
import VirtualShell.Seed

/-!
# The start is sound

The tree of the start is well-formed whatever the clock says, without unsafe characters in its names, and
every account in it can be the first to act.
-/
namespace VirtualShell
set_option autoImplicit false

theorem Keyed.of_mem_foldl_insert {α : Type} {key : α → String} {xs ys : List α} {x : α}
    (h : x ∈ xs.foldl (fun zs z => Keyed.insert key z zs) ys) : x ∈ xs ∨ x ∈ ys := by
  induction xs generalizing ys with
  | nil => exact .inr h
  | cons z zs ih =>
    rcases ih h with h | h
    · exact .inl (List.mem_cons_of_mem z h)
    · rcases Keyed.mem_insert h with rfl | h
      · exact .inl List.mem_cons_self
      · exact .inr h

theorem Keyed.ordered_foldl_insert {α : Type} {key : α → String} {xs ys : List α} (h : Keyed.Ordered key ys) :
    Keyed.Ordered key (xs.foldl (fun zs z => Keyed.insert key z zs) ys) := by
  induction xs generalizing ys with
  | nil => exact h
  | cons z zs ih => exact ih (Keyed.ordered_insert h)

namespace Seed

abbrev IsSafePart (name : String) : Prop := Path.isPart name = true ∧ Path.hasUnsafe name = false

/-- A node that may stand in a well-formed directory, with safe names below it. -/
structure Fits (n : Node) : Prop where
  wellFormed : n.WellFormed
  name : Path.isPart n.name = true
  safe : n.AllNames fun name => Path.hasUnsafe name = false

variable {name owner group permissions : String} {age : Nat} {entries : List Node}

theorem fits_of_mem (hEntries : ∀ e ∈ entries, Fits e) :
    ∀ e ∈ entries.foldl (fun es e => Keyed.insert Node.name e es) [], Fits e := by
  intro e he
  rcases Keyed.of_mem_foldl_insert he with he | he
  · exact hEntries e he
  · cases he

theorem wellFormed_directory (now : Float) (hPermissions : Draft.isPermissions permissions = true)
    (hOwner : owner ≠ "") (hEntries : ∀ e ∈ entries, Fits e) :
    (directory now name owner permissions age entries).WellFormed :=
  .dir ⟨hPermissions, hOwner, hOwner⟩ (Keyed.ordered_foldl_insert List.Pairwise.nil)
    (fun e he => (fits_of_mem hEntries e he).name) fun e he => (fits_of_mem hEntries e he).wellFormed

theorem safe_directory (now : Float) (hName : Path.hasUnsafe name = false) (hEntries : ∀ e ∈ entries, Fits e) :
    (directory now name owner permissions age entries).AllNames fun name => Path.hasUnsafe name = false :=
  Node.allNames_dir hName fun e he => (fits_of_mem hEntries e he).safe

theorem fits_directory (now : Float) (hName : IsSafePart name)
    (hPermissions : Draft.isPermissions permissions = true) (hOwner : owner ≠ "")
    (hEntries : ∀ e ∈ entries, Fits e) : Fits (directory now name owner permissions age entries) :=
  ⟨wellFormed_directory now hPermissions hOwner hEntries, hName.1, safe_directory now hName.2 hEntries⟩

theorem fits_openDirectory (now : Float) (hName : IsSafePart name) (hOwner : owner ≠ "")
    (hEntries : ∀ e ∈ entries, Fits e) : Fits (openDirectory now name owner age entries) :=
  fits_directory now hName (by decide) hOwner hEntries

theorem fits_file (now : Float) (content : String) (hName : IsSafePart name)
    (hPermissions : Draft.isPermissions permissions = true) (hOwner : owner ≠ "") (hGroup : group ≠ "") :
    Fits (file now name content owner group permissions age) :=
  ⟨.file ⟨hPermissions, hOwner, hGroup⟩, hName.1, Node.allNames_file hName.2⟩

theorem fits_plainFile (now : Float) (content : String) (hName : IsSafePart name) (hOwner : owner ≠ "") :
    Fits (plainFile now name content owner age) :=
  fits_file now content hName (by decide) hOwner hOwner

theorem fits_settings (now : Float) : Fits (settings now) := by
  refine fits_openDirectory now (by decide) (by decide) ?_
  simp only [List.forall_mem_cons]
  exact ⟨fits_plainFile now _ (by decide) (by decide), fits_plainFile now _ (by decide) (by decide),
    fits_plainFile now _ (by decide) (by decide), fits_file now _ (by decide) (by decide) (by decide) (by decide),
    fits_plainFile now _ (by decide) (by decide), List.forall_mem_nil _⟩

theorem fits_documents (now : Float) : Fits (documents now) := by
  refine fits_openDirectory now (by decide) (by decide) ?_
  simp only [List.forall_mem_cons]
  exact ⟨fits_plainFile now _ (by decide) (by decide),
    fits_file now _ (by decide) (by decide) (by decide) (by decide), fits_plainFile now _ (by decide) (by decide),
    fits_plainFile now _ (by decide) (by decide), List.forall_mem_nil _⟩

theorem fits_downloads (now : Float) : Fits (downloads now) := by
  refine fits_openDirectory now (by decide) (by decide) ?_
  simp only [List.forall_mem_cons]
  exact ⟨fits_plainFile now _ (by decide) (by decide), fits_plainFile now _ (by decide) (by decide),
    fits_plainFile now _ (by decide) (by decide), List.forall_mem_nil _⟩

theorem fits_projects (now : Float) : Fits (projects now) := by
  refine fits_openDirectory now (by decide) (by decide) (List.forall_mem_singleton.mpr ?_)
  exact fits_file now _ (by decide) (by decide) (by decide) (by decide)

theorem fits_homes (now : Float) : Fits (homes now) := by
  refine fits_openDirectory now (by decide) (by decide) ?_
  simp only [List.forall_mem_cons]
  refine ⟨fits_openDirectory now (by decide) (by decide) ?_,
    fits_directory now (by decide) (by decide) (by decide) (List.forall_mem_singleton.mpr ?_),
    List.forall_mem_nil _⟩
  · simp only [List.forall_mem_cons]
    exact ⟨fits_plainFile now _ (by decide) (by decide), fits_plainFile now _ (by decide) (by decide),
      fits_documents now, fits_downloads now, fits_projects now, List.forall_mem_nil _⟩
  · exact fits_file now _ (by decide) (by decide) (by decide) (by decide)

theorem fits_logs (now : Float) : Fits (logs now) := by
  refine fits_openDirectory now (by decide) (by decide) (List.forall_mem_singleton.mpr ?_)
  refine fits_openDirectory now (by decide) (by decide) ?_
  simp only [List.forall_mem_cons]
  exact ⟨fits_plainFile now _ (by decide) (by decide),
    fits_file now _ (by decide) (by decide) (by decide) (by decide), List.forall_mem_nil _⟩

theorem fits_programs (now : Float) : ∀ e ∈ ["bash", "cat", "ls", "grep", "find"].map (program now), Fits e := by
  have hNames : ∀ name ∈ ["bash", "cat", "ls", "grep", "find"], IsSafePart name := by decide
  intro e he
  obtain ⟨name, hName, rfl⟩ := List.mem_map.mp he
  exact fits_file now _ (hNames name hName) (by decide) (by decide) (by decide)

theorem fits_rootEntries (now : Float) : ∀ e ∈
    [openDirectory now "bin" "root" (days 90) (["bash", "cat", "ls", "grep", "find"].map (program now)),
      settings now, homes now,
      directory now "root" "root" "rwx------" (days 60) [plainFile now ".bashrc" shellStart "root" (days 60)],
      directory now "tmp" "root" "rwxrwxrwx" (hours 1) [], logs now], Fits e := by
  simp only [List.forall_mem_cons]
  refine ⟨fits_openDirectory now (by decide) (by decide) (fits_programs now), fits_settings now, fits_homes now,
    fits_directory now (by decide) (by decide) (by decide) (List.forall_mem_singleton.mpr ?_),
    fits_directory now (by decide) (by decide) (by decide) (List.forall_mem_nil _), fits_logs now,
    List.forall_mem_nil _⟩
  exact fits_plainFile now _ (by decide) (by decide)

theorem wellFormed_root (now : Float) : (root now).WellFormed :=
  wellFormed_directory now (by decide) (by decide) (fits_rootEntries now)

theorem safe_root (now : Float) : (root now).AllNames fun name => Path.hasUnsafe name = false :=
  safe_directory now (by decide) (fits_rootEntries now)

theorem valid_of_mem_accounts {a : Account} (h : a ∈ accounts.members) : a.Valid groups := by
  have hGroups : ∀ b ∈ accounts.members, b.groups.minus groups = [] := by decide
  have hUsername : ∀ b ∈ accounts.members, b.username ≠ "" := by decide
  have hPrimary : ∀ b ∈ accounts.members, b.primaryGroup ≠ "" := by decide
  have hHome : ∀ b ∈ accounts.members, Path.isCanonical b.home = true := by decide
  have hRoot : ∀ b ∈ accounts.members, b.home ≠ "/" := by decide
  exact ⟨hUsername a h, hPrimary a h, hHome a h, hRoot a h, Names.minus_eq_nil_iff.mp (hGroups a h)⟩

end Seed

theorem Session.start_of_fresh? {username : String} {now : Float} {s : Session}
    (h : Session.fresh? username now = some s) : s.root = Seed.root now ∧ s.accounts = Seed.accounts := by
  unfold Session.fresh? Session.start? at h
  obtain ⟨account, -, rfl⟩ := Option.map_eq_some_iff.mp h
  exact ⟨rfl, rfl⟩

theorem Session.Sound.of_fresh? {username : String} {now : Float} {s : Session}
    (h : Session.fresh? username now = some s) : s.Sound := by
  unfold Session.fresh? Session.start? at h
  obtain ⟨account, hAccount, rfl⟩ := Option.map_eq_some_iff.mp h
  have hAdmin : Seed.accounts.contains adminName = true := by decide
  have hGroup : Seed.groups.contains "" = false := by decide
  have hSlash : Path.isCanonical "/" = true := by decide
  have hValid := Seed.valid_of_mem_accounts (Roster.find?_eq_some_iff.mp hAccount).1
  refine ⟨?_, hAdmin, ?_, by simp, fun a => Seed.valid_of_mem_accounts, hGroup⟩
  · dsimp only
    split
    · rename_i hDir
      exact ⟨Seed.wellFormed_root now, rfl, hValid.home, hDir⟩
    · refine ⟨Seed.wellFormed_root now, rfl, hSlash, ?_⟩
      rw [Session.isDirectory_eq, Path.split_root]
      rfl
  · exact Option.isSome_iff_exists.mpr ⟨account, hAccount⟩

end VirtualShell
