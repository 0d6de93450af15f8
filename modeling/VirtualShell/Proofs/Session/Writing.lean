import VirtualShell.Proofs.Session.DirectoryChain

/-!
# Writing

To write a file is to change its content and the time of its change, or to add one entry to a directory. Nothing else
happens to the session. Whoever has written a file can append to it, and what it holds then is what a single write
would have put there.
-/
namespace VirtualShell
set_option autoImplicit false

namespace Session

open Update

/-- `t` is the session `s` after the file at a path, which had the content `old`, got the content `new`. -/
structure Rewritten (s : Session) (full old new : String) (t : Session) : Prop where
  file : ∃ i, s.lookup full = some (.file i old) ∧ t.lookup full = some (.file { i with modified := s.now } new)
  elsewhere : ∀ qs, qs ≠ Path.split full → Node.SameAt s.now [] s.root t.root qs
  same : t = { s with root := t.root }

/-- `t` is the session `s` after a new file was made at a path. Of all that was there before, only the directory that it
stands in has changed, and of this one only the time of change. -/
structure Added (s : Session) (full content : String) (t : Session) : Prop where
  directory : s.isDirectory (Path.parentOf full) = true
  absent : s.lookup full = none
  file : t.lookup full = some (.file { name := Path.baseName full, permissions := "rw-r--r--", owner := s.username
                                       group := s.primaryGroup, modified := s.now } content)
  elsewhere : ∀ qs, qs ≠ Path.split full → Node.SameAt s.now [(Path.split full).dropLast] s.root t.root qs
  same : t = { s with root := t.root }

variable {s t : Session} {path : PathArg} {full target content : String} {parent : Node} {i : Info} {c : String}

theorem reachDirectory_eq_ok_iff : s.reachDirectory full path = .ok parent ↔
    s.lookup full = some parent ∧ parent.isDir = true ∧ s.Searchable (Path.split full) := by
  constructor
  · intro h
    obtain ⟨hLookup, hDir⟩ := lookup_of_reachDirectory h
    exact ⟨hLookup, hDir, searchable_of_reachDirectory h⟩
  · rintro ⟨hLookup, hDir, hSearch⟩
    rw [reachDirectory, reach_eq_ok_iff.mpr ⟨hLookup, hSearch⟩, Result.ok_bind, if_pos hDir]
    rfl

theorem rewritten_modifyAt {f : Node → Node} (hf : Node.KeepsName f) (hFile : s.lookup full = some (.file i c))
    (hChange : f (.file i c) = .file { i with modified := s.now } content) :
    s.Rewritten full c content (s.modifyAt full f) := by
  refine ⟨⟨i, hFile, ?_⟩, fun qs hne => ?_, rfl⟩
  · rw [lookup, modifyAt, Node.get?_modify_here hf, ← lookup, hFile, Option.map_some, hChange]
  · exact Node.sameAt_nil_iff.mpr (Node.ownAt_modify_file hf hFile ⟨_, _, hChange⟩ hne)

theorem rewritten_touch (hFile : s.lookup full = some (.file i c)) :
    s.Rewritten full c c (s.modifyAt full (Node.touch s.now)) :=
  rewritten_modifyAt (Node.name_touch s.now) hFile rfl

theorem rewritten_overwrite (hFile : s.lookup full = some (.file i c)) (content : String) :
    s.Rewritten full c content (s.overwrite full content) :=
  rewritten_modifyAt (fun n => by simp) hFile rfl

theorem get?_addEntry (hOrder : s.root.Everywhere Node.Ordered) (e : Node) {directory : String}
    (hKind : s.root.kindAt (Path.split directory) = some .dir) :
    (s.addEntry directory e).root.get? (Path.split directory ++ [e.name]) = some e :=
  Node.get?_put_below hOrder e s.now hKind []

theorem addEntry_eq (s : Session) (directory : String) (e : Node) :
    s.addEntry directory e = { s with root := (s.addEntry directory e).root } :=
  rfl

theorem sameAt_addEntry (hOrder : s.root.Everywhere Node.Ordered) (e : Node) {directory : String} {qs : List String}
    (h : ¬Path.split directory ++ [e.name] <+: qs) :
    Node.SameAt s.now [Path.split directory] s.root (s.addEntry directory e).root qs :=
  Node.sameAt_put hOrder e s.now h

theorem added_addEntry (hOrder : s.root.Everywhere Node.Ordered) (hPlace : Path.split full ≠ [])
    (hParent : s.lookup (Path.parentOf full) = some parent) (hDir : parent.isDir = true)
    (hFree : parent.child? (Path.baseName full) = none) (content : String) :
    s.Added full content (s.addEntry (Path.parentOf full) (s.newFile (Path.baseName full) content)) := by
  have hSplit := Path.split_eq_concat hPlace
  have hKind : s.root.kindAt (Path.split (Path.parentOf full)) = some .dir := Node.kindAt_of_get? hParent hDir
  have hAbsent : s.lookup full = none := by
    rw [← lookup_entry hPlace, hParent, Option.bind_some, hFree]
  have hFile : (s.addEntry (Path.parentOf full) (s.newFile (Path.baseName full) content)).lookup full =
      some (s.newFile (Path.baseName full) content) := by
    rw [lookup, hSplit]
    exact get?_addEntry hOrder (s.newFile (Path.baseName full) content) hKind
  refine ⟨?_, hAbsent, hFile, fun qs hne => ?_, addEntry_eq s _ _⟩
  · rw [isDirectory_eq, Node.isDirAt_iff_kindAt]
    exact hKind
  · by_cases hPrefix : Path.split full <+: qs
    · -- below the new file there is nothing, and there was nothing
      rw [Node.SameAt, Node.ownAt, Node.ownAt, Node.get?_below_file hFile hPrefix hne,
        Node.get?_below_none hAbsent hPrefix]
      rfl
    · rw [hSplit] at hPrefix
      rw [← Path.split_parentOf]
      exact sameAt_addEntry hOrder (s.newFile (Path.baseName full) content) hPrefix

/-- The file at a path has got its content, be it new or not. -/
def Written (s : Session) (full content : String) (t : Session) : Prop :=
  (∃ c, s.Rewritten full c content t) ∨ s.Added full content t

theorem writeFile_run_iff {append : Bool} : (writeFile path content append).run s = (.ok target, t) ↔
    s.requireWritePath path = .ok target ∧ ∃ parent, s.reachDirectory (Path.parentOf target) path = .ok parent ∧
      ((∃ i c, parent.child? (Path.baseName target) = some (.file i c) ∧
          s.subject.may .write (.file i c) = .ok true ∧
          t = s.overwrite target (if append then c ++ content else content)) ∨
        (parent.child? (Path.baseName target) = none ∧
          s.requireModifiable parent (.reach path.text) = .ok () ∧
          t = s.addEntry (Path.parentOf target) (s.newFile (Path.baseName target) content))) := by
  constructor
  · exact (writeFile_ends s path content append).answer target t
  · rintro ⟨hTarget, parent, hParent, hWritten⟩
    have hReturns : (writeFile path content append).Returns s fun a t' => a = target ∧ t' = t := by
      unfold writeFile
      refine returns_session_bind (returns_lift_bind hTarget (returns_lift_bind hParent ?_))
      dsimp only
      rcases hWritten with ⟨i, c, hChild, hMay, rfl⟩ | ⟨hChild, hModify, rfl⟩
      · rw [hChild]
        refine returns_lift_bind hMay ?_
        rw [if_pos rfl]
        exact returns_write_bind (returns_pure ⟨rfl, rfl⟩)
      · rw [hChild]
        exact returns_lift_bind hModify (returns_write_bind (returns_pure ⟨rfl, rfl⟩))
    obtain ⟨_, _, hRun, rfl, rfl⟩ := hReturns
    exact hRun

section

variable (hTarget : s.requireWritePath path = .ok target)
  (hParent : s.reachDirectory (Path.parentOf target) path = .ok parent)

include hTarget hParent

/-- What is found in the directory above is what is at the path. -/
theorem lookup_eq_child? : s.lookup target = parent.child? (Path.baseName target) := by
  rw [← lookup_entry (split_ne_nil_of_requireWritePath hTarget), (lookup_of_reachDirectory hParent).1,
    Option.bind_some]

theorem added_newFile (hOrder : s.root.Everywhere Node.Ordered) (hFree : parent.child? (Path.baseName target) = none)
    (content : String) :
    s.Added target content (s.addEntry (Path.parentOf target) (s.newFile (Path.baseName target) content)) := by
  obtain ⟨hLookup, hDir⟩ := lookup_of_reachDirectory hParent
  exact added_addEntry hOrder (split_ne_nil_of_requireWritePath hTarget) hLookup hDir hFree content

end

theorem writeFile_written (hOrder : s.root.Everywhere Node.Ordered) (path : PathArg) (content : String)
    (append : Bool) : (writeFile path content append).Ends s fun target t => target = s.resolve path ∧
      ((∃ c, s.Rewritten target c (if append then c ++ content else content) t) ∨ s.Added target content t) := by
  refine (writeFile_ends s path content append).mono ?_
  rintro target t ⟨hTarget, parent, hParent, hWritten⟩
  refine ⟨(split_of_requireWritePath hTarget).1, ?_⟩
  have hLookup := lookup_eq_child? hTarget hParent
  rcases hWritten with ⟨i, c, hChild, -, rfl⟩ | ⟨hChild, -, rfl⟩
  · exact .inl ⟨c, rewritten_overwrite (hLookup.trans hChild) _⟩
  · exact .inr (added_newFile hTarget hParent hOrder hChild content)

theorem createFile_written (hOrder : s.root.Everywhere Node.Ordered) (path : PathArg) (content : String) :
    (createFile path content).Ends s fun target t => target = s.resolve path ∧
      ((∃ c, s.Rewritten target c c t) ∨ s.Added target content t) := by
  refine (createFile_ends s path content).mono ?_
  rintro target t ⟨hTarget, parent, hParent, hWritten⟩
  refine ⟨(split_of_requireWritePath hTarget).1, ?_⟩
  have hLookup := lookup_eq_child? hTarget hParent
  rcases hWritten with ⟨i, c, hChild, -, rfl⟩ | ⟨hChild, -, rfl⟩
  · exact .inl ⟨c, rewritten_touch (hLookup.trans hChild)⟩
  · exact .inr (added_newFile hTarget hParent hOrder hChild content)

namespace Written

variable {a b : String} {u : Session}

theorem same (h : s.Written full a t) : t = { s with root := t.root } := by
  rcases h with ⟨c, h⟩ | h
  · exact h.same
  · exact h.same

theorem exists_file (h : s.Written full a t) : ∃ i, t.lookup full = some (.file i a) := by
  rcases h with ⟨c, h⟩ | h
  · obtain ⟨i, -, hFile⟩ := h.file
    exact ⟨_, hFile⟩
  · exact ⟨_, h.file⟩

/-- What is written shows at the place of the file alone. -/
theorem agrees (h : s.Written full a t) (h' : s.Written full b u) :
    (∃ i, t.lookup full = some (.file i a) ∧ u.lookup full = some (.file i b)) ∧
      ∀ qs, qs ≠ Path.split full → t.root.ownAt qs = u.root.ownAt qs := by
  rcases h with ⟨c, h⟩ | h <;> rcases h' with ⟨d, h'⟩ | h'
  · obtain ⟨i, hBefore, hFile⟩ := h.file
    obtain ⟨j, hBefore', hFile'⟩ := h'.file
    cases hBefore.symm.trans hBefore'
    exact ⟨⟨_, hFile, hFile'⟩, fun qs hne => (h.elsewhere qs hne).ownAt_eq (h'.elsewhere qs hne)⟩
  · obtain ⟨i, hBefore, -⟩ := h.file
    cases hBefore.symm.trans h'.absent
  · obtain ⟨i, hBefore, -⟩ := h'.file
    cases hBefore.symm.trans h.absent
  · exact ⟨⟨_, h.file, h'.file⟩, fun qs hne => (h.elsewhere qs hne).ownAt_eq (h'.elsewhere qs hne)⟩

/-- The way to the file is what it was, but for the time of change of the directory that it stands in. -/
theorem exists_sameAt (h : s.Written full a t) : ∃ touched, ∀ qs, qs ≠ Path.split full →
    Node.SameAt s.now touched s.root t.root qs := by
  rcases h with ⟨c, h⟩ | h
  · exact ⟨[], h.elsewhere⟩
  · exact ⟨_, h.elsewhere⟩

theorem subject_eq (h : s.Written full a t) : t.subject = s.subject := by
  rw [h.same]
  rfl

/-- The directory above a written file can be reached again. -/
theorem exists_reachDirectory (h : s.Written full a t) (hPlace : Path.split full ≠ [])
    (hParent : s.reachDirectory (Path.parentOf full) path = .ok parent) :
    ∃ parent', t.reachDirectory (Path.parentOf full) path = .ok parent' := by
  obtain ⟨hLookup, hDir, hSearch⟩ := reachDirectory_eq_ok_iff.mp hParent
  obtain ⟨touched, hSame⟩ := h.exists_sameAt
  have hAbove {ds : List String} (hds : ds <+: Path.split (Path.parentOf full)) : ds ≠ Path.split full := by
    rintro rfl
    have hLength := hds.length_le
    rw [Path.split_parentOf, List.length_dropLast] at hLength
    have hPositive := List.length_pos_of_ne_nil hPlace
    omega
  have hKind : t.root.kindAt (Path.split (Path.parentOf full)) = some .dir := by
    rw [(hSame _ (hAbove List.prefix_rfl)).kindAt_eq]
    exact Node.kindAt_of_get? hLookup hDir
  obtain ⟨parent', hParent', hKind'⟩ := Option.map_eq_some_iff.mp hKind
  refine ⟨parent', reachDirectory_eq_ok_iff.mpr ⟨hParent', Node.kind_eq_dir_iff.mp hKind', ?_⟩⟩
  intro ds rest d hParts hRest hd
  obtain ⟨e, he, hMay⟩ := (hSame ds (hAbove ⟨rest, hParts.symm⟩)).may_eq hd
  rw [h.subject_eq, hMay]
  exact hSearch ds rest e hParts hRest he

end Written

/-- Whoever makes a file may write it. -/
theorem may_write_newFile (s : Session) (name content : String) :
    s.subject.may .write (s.newFile name content) = .ok true := by
  refine may_of_own rfl ?_
  change ("rw-r--r--".toList.take 3)[Access.write.place]? = _
  decide

section

variable {a : String}

/-- Every other content could have been written as well, and what was written may be written to. -/
theorem writeFile_any (hOrder : s.root.Everywhere Node.Ordered)
    (hRun : (writeFile path a false).run s = (.ok target, t)) :
    (∀ b, ∃ u, (writeFile path b false).run s = (.ok target, u) ∧ s.Written target b u) ∧
      ∃ i, t.lookup target = some (.file i a) ∧ s.subject.may .write (.file i a) = .ok true := by
  obtain ⟨hTarget, parent, hParent, hWritten⟩ := writeFile_run_iff.mp hRun
  have hLookup := lookup_eq_child? hTarget hParent
  rcases hWritten with ⟨i, c, hChild, hMay, rfl⟩ | ⟨hChild, hModify, rfl⟩
  · have hRewritten (b : String) : s.Rewritten target c b (s.overwrite target b) :=
      rewritten_overwrite (hLookup.trans hChild) b
    refine ⟨fun b => ⟨s.overwrite target b, writeFile_run_iff.mpr ⟨hTarget, parent, hParent, .inl ⟨i, c, hChild, hMay,
      rfl⟩⟩, .inl ⟨c, hRewritten b⟩⟩, ?_⟩
    obtain ⟨j, hBefore, hFile⟩ := (hRewritten a).file
    cases (hLookup.trans hChild).symm.trans hBefore
    refine ⟨_, hFile, ?_⟩
    have hTouched := (s.subject.may_touch .write s.now (.file i c)).trans hMay
    exact (Subject.may_congr rfl rfl).trans hTouched
  · have hAdded (b : String) := added_newFile hTarget hParent hOrder hChild b
    refine ⟨fun b => ⟨_, writeFile_run_iff.mpr ⟨hTarget, parent, hParent, .inr ⟨hChild, hModify, rfl⟩⟩,
      .inr (hAdded b)⟩, _, (hAdded a).file, s.may_write_newFile (Path.baseName target) a⟩

/-- Appending to what was written is a write of both contents, but for the time of change. -/
theorem writeFile_append (hOrder : s.root.Everywhere Node.Ordered)
    (hRun : (writeFile path a false).run s = (.ok target, t)) (b : String) (time : Float) :
    ∃ t' u, (writeFile path b true).run { t with now := time } = (.ok target, t') ∧
      (writeFile path (a ++ b) false).run s = (.ok target, u) ∧
      (∃ i, u.lookup target = some (.file i (a ++ b)) ∧
        t'.lookup target = some (.file { i with modified := time } (a ++ b))) ∧
      (∀ qs, qs ≠ Path.split target → t'.root.ownAt qs = u.root.ownAt qs) ∧
      t' = { u with root := t'.root, now := time } := by
  obtain ⟨hTarget, parent, hParent, -⟩ := writeFile_run_iff.mp hRun
  obtain ⟨hAny, i, hFile, hMay⟩ := writeFile_any hOrder hRun
  obtain ⟨t₁, hRun', hWritten⟩ := hAny a
  cases hRun.symm.trans hRun'
  obtain ⟨u, hOnce, hBoth⟩ := hAny (a ++ b)
  have hPlace := split_ne_nil_of_requireWritePath hTarget
  obtain ⟨parent', hParent'⟩ := hWritten.exists_reachDirectory hPlace hParent
  have hTarget' : ({ t with now := time } : Session).requireWritePath path = .ok target := by
    rw [hWritten.same]
    exact hTarget
  have hLookup := lookup_eq_child? hTarget' hParent'
  have hMay' : ({ t with now := time } : Session).subject.may .write (.file i a) = .ok true := by
    refine Eq.trans (congrArg (fun v => Subject.may v .write (.file i a)) ?_) hMay
    exact hWritten.subject_eq
  have hAgain : (writeFile path b true).run { t with now := time } =
      (.ok target, ({ t with now := time } : Session).overwrite target (a ++ b)) :=
    writeFile_run_iff.mpr ⟨hTarget', parent', hParent', .inl ⟨i, a, hLookup.symm.trans hFile, hMay', rfl⟩⟩
  have hAppended := rewritten_overwrite (s := { t with now := time }) hFile (a ++ b)
  refine ⟨_, u, hAgain, hOnce, ?_, fun qs hne => ?_, ?_⟩
  · obtain ⟨⟨j, hHere, hHere'⟩, -⟩ := hWritten.agrees hBoth
    obtain ⟨k, hBefore, hAfter⟩ := hAppended.file
    cases hFile.symm.trans hHere
    cases hFile.symm.trans hBefore
    exact ⟨i, hHere', hAfter⟩
  · rw [Node.sameAt_nil_iff.mp (hAppended.elsewhere qs hne)]
    exact (hWritten.agrees hBoth).2 qs hne
  · rw [hAppended.same, hWritten.same, hBoth.same]

end

/-- A write changes the content of the file and the time of its change, or adds one file to its directory, and nothing
else. What was written is there, and appending to it leaves what a single write would have left. To make a file that is
there changes nothing but the time. -/
theorem writing_exact (hOrder : s.root.Everywhere Node.Ordered) (path : PathArg) :
    (∀ content append, (writeFile path content append).Ends s fun target t => target = s.resolve path ∧
      ((∃ c, s.Rewritten target c (if append then c ++ content else content) t) ∨ s.Added target content t)) ∧
    (∀ content, (createFile path content).Ends s fun target t => target = s.resolve path ∧
      ((∃ c, s.Rewritten target c c t) ∨ s.Added target content t)) ∧
    ∀ a target t, (writeFile path a false).run s = (.ok target, t) →
      (∃ i, t.lookup (t.resolve path) = some (.file i a)) ∧
      ∀ b time, ∃ t' u, (writeFile path b true).run { t with now := time } = (.ok target, t') ∧
        (writeFile path (a ++ b) false).run s = (.ok target, u) ∧
        (∃ i, u.lookup target = some (.file i (a ++ b)) ∧
          t'.lookup target = some (.file { i with modified := time } (a ++ b))) ∧
        (∀ qs, qs ≠ Path.split target → t'.root.ownAt qs = u.root.ownAt qs) ∧
        t' = { u with root := t'.root, now := time } := by
  refine ⟨writeFile_written hOrder path, createFile_written hOrder path, fun a target t hRun => ⟨?_, ?_⟩⟩
  · obtain ⟨hTarget, hWritten⟩ := (writeFile_written hOrder path a false).answer target t hRun
    have hWritten : s.Written target a t := hWritten
    have hResolve : t.resolve path = target := by
      rw [hTarget, hWritten.same]
      rfl
    rw [hResolve]
    exact hWritten.exists_file
  · exact writeFile_append hOrder hRun

/-- A new note is written and appended to a second later. -/
theorem note_appended : ∃ s t t' i, Session.fresh? "user" 0.0 = some s ∧ s.root.Everywhere Node.Ordered ∧
    (writeFile (some "note") "a" false).run s = (.ok "/home/user/note", t) ∧ s.Added "/home/user/note" "a" t ∧
    (writeFile (some "note") "b" true).run { t with now := 1.0 } = (.ok "/home/user/note", t') ∧
    t'.lookup "/home/user/note" = some (.file i "ab") ∧ i.modified = 1.0 := by
  have hRun : (Session.fresh? "user" 0.0).map (fun s => (((writeFile (some "note") "a" false).run s).1.toOption,
      (s.lookup "/home/user/note").isNone)) = some (some "/home/user/note", true) := by
    decide +kernel
  obtain ⟨s, hFresh, hEnd⟩ := Option.map_eq_some_iff.mp hRun
  obtain ⟨hWrites, hAbsent⟩ := Prod.mk.inj hEnd
  have hOrder : s.root.Everywhere Node.Ordered := (Reached.start hFresh).inv.sound.tree.orderly.ordered
  obtain ⟨t, hRun⟩ := exists_run_eq hWrites
  obtain ⟨hWrite, -, hAppend⟩ := writing_exact hOrder (some "note")
  obtain ⟨-, hWritten⟩ := (hWrite "a" false).answer _ t hRun
  obtain ⟨-, hAppend⟩ := hAppend "a" _ t hRun
  obtain ⟨t', u, hRun', -, ⟨i, -, hFile⟩, -, -⟩ := hAppend "b" 1.0
  refine ⟨s, t, t', _, hFresh, hOrder, hRun, ?_, hRun', hFile, rfl⟩
  rcases hWritten with ⟨c, hOld⟩ | hNew
  · obtain ⟨j, hBefore, -⟩ := hOld.file
    rw [hBefore] at hAbsent
    cases hAbsent
  · exact hNew

end Session

end VirtualShell
