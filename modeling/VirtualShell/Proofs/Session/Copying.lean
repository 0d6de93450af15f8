import VirtualShell.Proofs.Session.Removal
import VirtualShell.Proofs.Session.Unreadable

/-!
# Copying

A copy has a node for every node of the source, made now and for the acting user, or the content of the source goes into
a file that is there already. The source and everything else stay as they are. Whoever makes a copy can
read all that is copied.
-/
namespace VirtualShell.Session
set_option autoImplicit false

open Update

def copiedInfo (s : Session) (name : String) (rest : List String) (i : Info) : Info :=
  { i with
    name := if rest = [] then name else i.name
    owner := s.username
    group := s.primaryGroup
    modified := s.now }

structure Copied (s : Session) (old directory : List String) (name : String) (m : Node) : Prop where
  absent : s.root.get? (directory ++ [name]) = none
  below : ∀ rest, m.ownAt (directory ++ [name] ++ rest) =
    (s.root.ownAt (old ++ rest)).map (Node.mapInfo (s.copiedInfo name rest))
  elsewhere : ∀ qs, ¬directory ++ [name] <+: qs → Node.SameAt s.now [directory] s.root m qs
  source : ∀ rest, s.root.get? (old ++ rest) ≠ none → Node.SameAt s.now [directory] s.root m (old ++ rest)

/-- `m` is the tree of the session after the file at `new` got the content of the file at `old`. -/
structure Poured (s : Session) (old new : List String) (m : Node) : Prop where
  files : ∃ i c j d, s.root.get? old = some (.file i c) ∧ s.root.get? new = some (.file j d) ∧
    m.get? new = some (.file { j with modified := s.now } c)
  elsewhere : ∀ qs, qs ≠ new → m.ownAt qs = s.root.ownAt qs

/-- `t` is the session `s` after what is at `old` was copied to an entry of a directory. -/
structure Duplicated (s : Session) (old directory : List String) (name : String) (t : Session) : Prop where
  landed : s.Copied old directory name t.root ∨ s.Poured old (directory ++ [name]) t.root
  apart : Path.isCanonical s.cwd = true → ¬old <+: directory ++ [name]
  readable : ∀ rest m, s.root.get? (old ++ rest) = some m →
    s.subject.may .read m = .ok true ∧ (m.isDir = true → s.subject.may .execute m = .ok true)
  cwd : t.cwd = s.cwd
  identity : SameIdentity s t

variable {s : Session} {source dest : PathArg} {n target : Node} {full directory name : String}

theorem ownAt_cloned (s : Session) (n : Node) (name : String) (rest : List String) :
    (s.cloned n name).ownAt rest = (n.ownAt rest).map (Node.mapInfo (s.copiedInfo name rest)) := by
  have hCopy := Node.get?_mapAll (n := n)
    (g := fun i => { i with owner := s.username, group := s.primaryGroup, modified := s.now }) (fun _ => rfl) rest
  rw [cloned, Node.ownAt, Node.get?_rename, hCopy, Node.ownAt, Option.map_map, Option.map_map, Option.map_map]
  congr 1
  funext m
  simp only [Function.comp_apply]
  split
  · rename_i hTop
    cases m <;> simp [hTop, Node.rename, Node.mapAll, Node.mapInfo, Node.bare, copiedInfo]
  · rename_i hBelow
    cases m <;> simp [hBelow, Node.mapAll, Node.mapInfo, Node.bare, copiedInfo]

theorem copied_addEntry (h : s.root.Everywhere Node.Ordered) {old : List String} (hn : s.root.get? old = some n)
    (hTarget : s.root.get? (Path.split directory) = some target) (hDir : target.isDir = true)
    (hFree : target.child? name = none) :
    s.Copied old (Path.split directory) name (s.addEntry directory (s.cloned n name)).root := by
  have hName : (s.cloned n name).name = name := Node.name_rename name _
  have hKind : s.root.kindAt (Path.split directory) = some .dir := Node.kindAt_of_get? hTarget hDir
  have hAbsent : s.root.get? (Path.split directory ++ [name]) = none := by
    rw [Node.get?_concat, hTarget, Option.bind_some, hFree]
  have hElsewhere : ∀ qs, ¬Path.split directory ++ [name] <+: qs →
      Node.SameAt s.now [Path.split directory] s.root (s.addEntry directory (s.cloned n name)).root qs :=
    fun qs hqs => Node.sameAt_put h (s.cloned n name) s.now (hName.symm ▸ hqs)
  refine ⟨hAbsent, fun rest => ?_, hElsewhere, fun rest hPresent => hElsewhere _ ?_⟩
  · have hPut := Node.get?_put_below h (s.cloned n name) s.now hKind rest
    rw [hName] at hPut
    have hOwn : (s.addEntry directory (s.cloned n name)).root.ownAt (Path.split directory ++ [name] ++ rest) =
        (s.cloned n name).ownAt rest := by
      rw [List.append_assoc, List.singleton_append]
      exact congrArg (Option.map Node.bare) hPut
    rw [hOwn, ownAt_cloned, Node.ownAt, Node.ownAt, Node.get?_append, hn, Option.bind_some]
  · -- what was there before is not below a place where nothing was
    refine Node.not_prefix_of_kindAt ?_ (Option.map_eq_none_iff.mpr hAbsent)
    rwa [Node.kindAt, Ne, Option.map_eq_none_iff]

theorem poured_overwrite {old : List String} {e : Node} (hn : s.root.get? old = some n) (hFile : n.isDir = false)
    (he : s.root.get? (Path.split full) = some e) (hFile' : e.isDir = false) :
    s.Poured old (Path.split full) (s.overwrite full n.content).root := by
  obtain ⟨i, c, rfl⟩ := Node.exists_file (Node.kind_eq_file_iff.mpr hFile)
  obtain ⟨j, d, rfl⟩ := Node.exists_file (Node.kind_eq_file_iff.mpr hFile')
  have hKeep : Node.KeepsName fun m => (m.setContent c).touch s.now := fun m => by simp
  refine ⟨⟨i, c, j, d, hn, he, ?_⟩, fun qs hne => ?_⟩
  · exact (Node.get?_modify_here hKeep _ s.root).trans (congrArg _ he)
  · exact Node.ownAt_modify_file hKeep he ⟨_, _, rfl⟩ hne

theorem readable_below (h : s.requireReadable (n.walk full) = .ok ()) {rest : List String} {m : Node}
    (hm : n.get? rest = some m) :
    s.subject.may .read m = .ok true ∧ (m.isDir = true → s.subject.may .execute m = .ok true) := by
  have hAll : n.Everywhere fun k =>
      s.subject.may .read k = .ok true ∧ (k.isDir = true → s.subject.may .execute k = .ok true) :=
    .of_walk fun q k hk => readable_of_requireReadable h hk
  exact (hAll.get? hm).here

theorem split_final (hn : s.lookup (s.resolve source) = some n) (hSource : Path.split (s.resolve source) ≠ [])
    (hDest : s.destination n dest = .ok (directory, name)) :
    Path.split (Path.join directory name) = Path.split directory ++ [name] := by
  obtain ⟨hne, hSlash⟩ := destination_name hn hSource hDest fun _ hp => Path.ne_and_not_slash_of_mem_split hp
  exact Path.split_join hne hSlash

theorem isDir_root (hTarget : s.lookup full = some target) (hDir : target.isDir = true) : s.root.isDir = true := by
  by_cases hTop : Path.split full = []
  · rw [lookup, hTop] at hTarget
    cases hTarget
    exact hDir
  · exact Node.isDir_of_get? hTarget hTop

/-- Below a file there is no directory to copy to, and a directory is not copied to a place below it. -/
theorem copy_apart (hCwd : Path.isCanonical s.cwd = true) (hn : s.reach (s.resolve source) source = .ok n)
    (hDest : s.destination n dest = .ok (directory, name))
    (hOutside : n.isDir = true → Path.isWithin (Path.join directory name) (s.resolve source) = false)
    (hne : Path.join directory name ≠ s.resolve source) (hTarget : s.lookup directory = some target)
    (hDir : target.isDir = true) : ¬Path.split (s.resolve source) <+: Path.split directory ++ [name] := by
  have hTop := isDir_root hTarget hDir
  have hRoot := ne_root_of_outside hTop hn hOutside
  obtain ⟨ss, hss, hSource, hNode⟩ := source_parts hCwd hRoot hn
  obtain ⟨ds, hds, rfl⟩ := destination_parts hCwd hTop (hss.right _ (List.mem_singleton_self _)) hDest
  rw [hSource, Path.join_ofParts hds.left] at hOutside hne
  rw [hSource, Path.split_ofParts hss, Path.split_ofParts hds.left]
  rw [lookup_ofParts hds.left] at hTarget
  intro hPrefix
  cases hKind : n.isDir with
  | true => cases (hOutside hKind).symm.trans ((Path.isWithin_iff hds hss).mpr hPrefix)
  | false =>
    rcases List.prefix_concat_iff.mp hPrefix with hSame | ⟨rest, rfl⟩
    · exact hne (congrArg Path.ofParts hSame.symm)
    · rw [Node.get?_append, hNode, Option.bind_some] at hTarget
      by_cases hHere : rest = []
      · subst hHere
        cases hTarget
        cases hKind.symm.trans hDir
      · cases hKind.symm.trans (Node.isDir_of_get? hTarget hHere)

/-- A copy changes nothing but the place that it is made at. -/
theorem copy_exact (h : s.root.Everywhere Node.Ordered) (source dest : PathArg) (recursive : Bool) :
    (copy source dest recursive).Ends s fun final t => ∃ directory name, final = Path.join directory name ∧
      (Path.split (s.resolve source) ≠ [] → Path.split final = Path.split directory ++ [name]) ∧
      s.Duplicated (Path.split (s.resolve source)) (Path.split directory) name t := by
  refine (copy_ends s source dest recursive).mono ?_
  rintro final t ⟨n, directory, name, hn, -, hReadable, hDest, rfl, hOutside, hne, -, target, hTarget, hCase⟩
  have hNode := lookup_of_reach hn
  obtain ⟨hLookup, hDir⟩ := lookup_of_reachDirectory hTarget
  refine ⟨directory, name, rfl, fun hSource => split_final hNode hSource hDest, ?_,
    fun hCwd => copy_apart hCwd hn hDest hOutside hne hLookup hDir, fun rest m hm => ?_, ?_, ?_⟩
  · rcases hCase with ⟨e, hChild, hFile', hFile, -, rfl⟩ | ⟨hFree, -, rfl⟩
    · right
      have hSource : Path.split (s.resolve source) ≠ [] := by
        intro hNil
        rw [lookup, hNil] at hNode
        cases hNode
        cases hFile.symm.trans (isDir_root hLookup hDir)
      have hEntry : s.root.get? (Path.split directory ++ [name]) = some e := get?_of_child hTarget hChild
      rw [← split_final hNode hSource hDest] at hEntry ⊢
      exact poured_overwrite hNode hFile hEntry hFile'
    · exact .inl (copied_addEntry h hNode hLookup hDir hFree)
  · rw [Node.get?_append] at hm
    obtain ⟨k, hk, hm⟩ := Option.bind_eq_some_iff.mp hm
    cases hNode.symm.trans hk
    exact readable_below hReadable hm
  · rcases hCase with ⟨e, -, -, -, -, rfl⟩ | ⟨-, -, rfl⟩
    · rfl
    · rfl
  · rcases hCase with ⟨e, -, -, -, -, rfl⟩ | ⟨-, -, rfl⟩
    · exact sameIdentity_modifyAt s _ _
    · exact sameIdentity_modifyAt s _ _

theorem copied_documents : ∃ s t, Session.fresh? "user" 0.0 = some s ∧ s.root.Everywhere Node.Ordered ∧
    (copy (some "documents") (some "/tmp/kept") true).run s = (.ok "/tmp/kept", t) ∧
    s.Duplicated ["home", "user", "documents"] ["tmp"] "kept" t := by
  have hRun : (Session.fresh? "user" 0.0).map (fun s => (s.resolve (some "documents"),
      ((copy (some "documents") (some "/tmp/kept") true).run s).1.toOption)) =
      some ("/home/user/documents", some "/tmp/kept") := by
    decide +kernel
  have hOld : Path.split "/home/user/documents" = ["home", "user", "documents"] := by decide
  have hNew : Path.split "/tmp/kept" = ["tmp"] ++ ["kept"] := by decide
  obtain ⟨s, hFresh, hCopied⟩ := Option.map_eq_some_iff.mp hRun
  obtain ⟨hResolve, hOk⟩ := Prod.mk.inj hCopied
  have hOrdered := (Reached.start hFresh).inv.sound.tree.wellFormed.everywhere_ordered
  obtain ⟨t, hEnd⟩ := exists_run_eq hOk
  obtain ⟨directory, name, -, hPlace, hDuplicated⟩ :=
    (copy_exact hOrdered (some "documents") (some "/tmp/kept") true).answer _ t hEnd
  rw [hResolve, hOld] at hPlace hDuplicated
  obtain ⟨hDirectory, hName⟩ := List.append_inj' (hNew.symm.trans (hPlace (List.cons_ne_nil _ _))) rfl
  cases hName
  rw [← hDirectory] at hDuplicated
  exact ⟨s, t, hFresh, hOrdered, hEnd, hDuplicated⟩

end VirtualShell.Session
