import VirtualShell.Proofs.Path.Parts
import VirtualShell.Proofs.Result
import VirtualShell.Proofs.Tree.Lookup
import VirtualShell.Session.Create
import VirtualShell.Session.Transfer

/-!
# What the checks have found

A node that was reached is the one a lookup finds, and so on for every check that answers with what it
has found. The rights that were looked at on the way are left out here.
-/
namespace VirtualShell
set_option autoImplicit false

theorem get?_of_reach {u : Subject} {shown : String} {n m : Node} {ps : List String}
    (h : u.reach shown n ps = .ok m) : n.get? ps = some m := by
  induction ps generalizing n with
  | nil =>
    cases h
    rfl
  | cons p ps ih =>
    rw [Subject.reach] at h
    split at h
    · obtain ⟨may, -, h⟩ := Result.exists_of_bind_ok h
      split at h
      · split at h
        · rename_i e hChild
          rw [Node.get?_cons, hChild]
          exact ih h
        · cases h
      · cases h
    · cases h

namespace Session

variable {s : Session} {path : PathArg} {full : String} {n : Node}

theorem lookup_of_reach (h : s.reach full path = .ok n) : s.lookup full = some n := get?_of_reach h

theorem lookup_of_reachDirectory (h : s.reachDirectory full path = .ok n) :
    s.lookup full = some n ∧ n.isDir = true := by
  unfold reachDirectory at h
  obtain ⟨m, hReach, h⟩ := Result.exists_of_bind_ok h
  split at h
  · rename_i hDir
    cases h
    exact ⟨lookup_of_reach hReach, hDir⟩
  · cases h

theorem forWriting_of_requireWritePath (h : s.requireWritePath path = .ok full) :
    Path.forWriting s.home s.cwd path = some full := by
  unfold requireWritePath at h
  split at h
  · rename_i target hTarget
    cases h
    exact hTarget
  · cases h

theorem lookup_ofParts {ps : List String} (h : Path.AreParts ps) :
    s.lookup (Path.ofParts ps) = s.root.get? ps := by
  rw [lookup, Path.split_ofParts h]

theorem isDirectory_eq (s : Session) (path : String) :
    s.isDirectory path = s.root.isDirAt (Path.split path) :=
  rfl

theorem isDirectory_ofParts {ps : List String} (h : Path.AreParts ps) :
    s.isDirectory (Path.ofParts ps) = s.root.isDirAt ps := by
  rw [isDirectory_eq, Path.split_ofParts h]

/-- The way down ends at a directory that lacks the next name. -/
theorem planDirectories_missing {u : Subject} {text : String} {parents : Bool}
    {place place' parts rest : List String} {m : Node}
    (h : planDirectories u text parents place n parts = .ok (.missing place' m rest)) :
    ∃ done p ps, rest = p :: ps ∧ parts = done ++ p :: ps ∧ place' = place ++ done ∧ n.get? done = some m ∧
      (n.isDir = true → m.isDir = true) ∧ m.child? p = none := by
  induction parts generalizing place n with
  | nil => cases h
  | cons p ps ih =>
    rw [planDirectories] at h
    obtain ⟨may, -, h⟩ := Result.exists_of_bind_ok h
    split at h
    · split at h
      · rename_i hChild
        split at h
        · cases h
        · cases h
          exact ⟨[], p, ps, rfl, rfl, by simp, rfl, id, hChild⟩
      · cases h
      · rename_i i es hChild
        split at h
        · cases h
        · obtain ⟨done, q, qs, hRest, hParts, hPlace, hm, hDir, hNone⟩ := ih h
          refine ⟨p :: done, q, qs, hRest, by rw [hParts]; rfl, by simp [hPlace], ?_, fun _ => hDir rfl, hNone⟩
          rw [Node.get?_cons, hChild]
          exact hm
    · cases h

/-- A session in the root calls it by its usual path. -/
def Rooted (s : Session) : Prop := Path.split s.cwd = [] → s.cwd = "/"

theorem rooted_of_isCanonical (h : Path.isCanonical s.cwd = true) : s.Rooted := by
  intro hNil
  obtain ⟨ps, hParts, hCwd⟩ := Path.isCanonical_iff.mp h
  rw [hCwd, Path.split_ofParts hParts] at hNil
  rw [hCwd, hNil]
  rfl

/-- What is not the root is an entry of the directory above it. -/
theorem Rooted.split_resolve (hCwd : s.Rooted) (hRoot : s.resolve path ≠ "/") :
    Path.split (s.resolve path) = Path.split (Path.parentOf (s.resolve path)) ++ [Path.baseName (s.resolve path)] := by
  refine Path.split_eq_concat fun hNil => hRoot ?_
  by_cases hTyped : path = none ∨ path = some ""
  · have hHere : s.resolve path = s.cwd := by
      rcases hTyped with rfl | rfl <;> rfl
    rw [hHere] at hNil ⊢
    exact hCwd hNil
  · -- whatever was typed, the path is written back from its parts
    obtain ⟨text, rfl⟩ := Option.ne_none_iff_exists'.mp fun hNone => hTyped (.inl hNone)
    have hSplit := Path.ofParts_split_resolve s.home s.cwd fun hEmpty => hTyped (.inr (congrArg some hEmpty))
    rw [← resolve, hNil] at hSplit
    exact hSplit.symm

theorem split_resolve (hCwd : Path.isCanonical s.cwd = true) (hRoot : s.resolve path ≠ "/") :
    Path.split (s.resolve path) = Path.split (Path.parentOf (s.resolve path)) ++ [Path.baseName (s.resolve path)] :=
  (rooted_of_isCanonical hCwd).split_resolve hRoot

/-- A destination is a name in a canonical directory: that of the source or the last part of the path. -/
theorem destination_ok {dest : PathArg} {directory name : String} (hCwd : Path.isCanonical s.cwd = true)
    (hRoot : s.root.isDir = true) (h : s.destination n dest = .ok (directory, name)) :
    ∃ ps, Path.AreParts ps ∧ directory = Path.ofParts ps ∧ (name = n.name ∨ Path.isPart name = true) := by
  have hResolve : Path.isCanonical (s.resolve dest) = true := Path.isCanonical_resolve s.home dest hCwd
  cases dest with
  | none => cases h
  | some typed =>
    simp only [destination] at h
    split at h
    · cases h
    · split at h
      · cases h
        obtain ⟨ps, hps, hDirectory⟩ := Path.isCanonical_iff.mp hResolve
        exact ⟨ps, hps, hDirectory, .inl rfl⟩
      · rename_i hNoDirectory
        have hne : s.resolve (some typed) ≠ "/" := by
          intro hEq
          rw [hEq] at hNoDirectory
          exact hNoDirectory hRoot
        obtain ⟨ps, last, hps, hFull⟩ := Path.exists_concat_of_ne_root hResolve hne
        rw [hFull, Path.parentOf_ofParts hps, Path.baseName_ofParts hps, List.dropLast_concat] at h
        cases h
        exact ⟨ps, hps.left, rfl, .inr (hps.right name (List.mem_singleton_self _))⟩

/-- Whatever is moved or copied gets a name that has no slash, be it its own or the last part of the destination. -/
theorem destination_name {dest : PathArg} {directory name : String} {ps : List String} (hn : s.root.get? ps = some n)
    (hne : ps ≠ []) (hDest : s.destination n dest = .ok (directory, name)) (hps : ∀ p ∈ ps, p ≠ "" ∧ '/' ∉ p.toList) :
    name ≠ "" ∧ '/' ∉ name.toList := by
  cases dest with
  | none => cases hDest
  | some typed =>
    simp only [destination] at hDest
    split at hDest
    · cases hDest
    · split at hDest
      · cases hDest
        rw [← List.dropLast_concat_getLast hne] at hn
        rw [Node.name_of_get?_concat hn]
        exact hps _ (List.getLast_mem hne)
      · rename_i hNoDirectory
        have hSplit : Path.split (s.resolve (some typed)) ≠ [] := by
          intro hNil
          rw [isDirectory_eq, hNil] at hNoDirectory
          exact hNoDirectory (Node.isDir_of_get? hn hne)
        cases hDest
        apply Path.ne_and_not_slash_of_mem_split
        rw [Path.split_eq_concat hSplit]
        exact List.mem_append_right _ (List.mem_singleton_self _)

/-- Where a name is not occupied there is nothing, or a file that another file may replace. -/
theorem kindAt_of_not_occupied {ds : List String} {name : String} {target : Node}
    (hTarget : s.root.get? ds = some target) (hFree : isOccupied target name n = false) :
    s.root.kindAt (ds ++ [name]) = none ∨ s.root.kindAt (ds ++ [name]) = some .file ∧ n.kind = .file := by
  rw [Node.kindAt, Node.get?_concat, hTarget, Option.bind_some]
  unfold isOccupied at hFree
  cases hChild : target.child? name with
  | none => exact .inl rfl
  | some e =>
    rw [hChild] at hFree
    obtain ⟨hFile, hFile'⟩ := Bool.or_eq_false_iff.mp hFree
    exact .inr ⟨congrArg some (Node.kind_eq_file_iff.mpr hFile), Node.kind_eq_file_iff.mpr hFile'⟩

/-- The root is a directory that every path lies within. -/
theorem ne_root_of_outside {source : PathArg} {final : String} (hRoot : s.root.isDir = true)
    (hn : s.reach (s.resolve source) source = .ok n)
    (hOutside : n.isDir = true → Path.isWithin final (s.resolve source) = false) : s.resolve source ≠ "/" := by
  intro hEq
  have hLookup := lookup_of_reach hn
  rw [hEq] at hLookup hOutside
  cases hLookup
  have hFalse := hOutside hRoot
  rw [Path.isWithin, beq_self_eq_true, Bool.true_or, Bool.true_or] at hFalse
  cases hFalse

/-- A node below the root stands under its own name, at the place that its path gives. -/
theorem source_parts {source : PathArg} (hCwd : Path.isCanonical s.cwd = true) (hRoot : s.resolve source ≠ "/")
    (hn : s.reach (s.resolve source) source = .ok n) : ∃ ss, Path.AreParts (ss ++ [n.name]) ∧
      s.resolve source = Path.ofParts (ss ++ [n.name]) ∧ s.root.get? (ss ++ [n.name]) = some n := by
  have hFull : Path.isCanonical (s.resolve source) = true := Path.isCanonical_resolve s.home source hCwd
  obtain ⟨ss, old, hss, hSource⟩ := Path.exists_concat_of_ne_root hFull hRoot
  have hLookup := lookup_of_reach hn
  rw [hSource, lookup_ofParts hss] at hLookup
  have hName := Node.name_of_get?_concat hLookup
  subst hName
  exact ⟨ss, hss, hSource, hLookup⟩

/-- The name that a node below the root is moved or copied to may be a part of a path. -/
theorem destination_parts {dest : PathArg} {directory name : String} (hCwd : Path.isCanonical s.cwd = true)
    (hRoot : s.root.isDir = true) (hName : Path.isPart n.name = true)
    (hDest : s.destination n dest = .ok (directory, name)) :
    ∃ ds, Path.AreParts (ds ++ [name]) ∧ directory = Path.ofParts ds := by
  obtain ⟨ds, hds, hDirectory, hNew⟩ := destination_ok hCwd hRoot hDest
  refine ⟨ds, hds.concat ?_, hDirectory⟩
  rcases hNew with rfl | hNew
  · exact hName
  · exact hNew

end Session

end VirtualShell
