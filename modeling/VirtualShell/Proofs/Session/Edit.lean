import Mathlib.Logic.Relation
import VirtualShell.Proofs.Session.Sound

/-!
# What an operation may do to the tree

An operation makes one of a few edits, or two of them in a row. Each edit says what has to hold for it,
so that an invariant of the tree has to be shown for the edits alone. One such invariant is that the
session is at a node of a well-formed tree; the place stays a directory if it is one.
-/
namespace VirtualShell.Session
set_option autoImplicit false

def placeKind (s : Session) : Option NodeKind := s.root.kindAt (Path.split s.cwd)

/-- The session is at a node of a well-formed tree, be it a directory or a file. -/
structure Placed (s : Session) : Prop where
  wellFormed : s.root.WellFormed
  name : s.root.name = "/"
  isDir : s.root.isDir = true
  canonical : Path.isCanonical s.cwd = true
  present : s.placeKind ≠ none

inductive Edit (s : Session) : Session → Prop where
  /-- Only accounts, or who acts, have changed. -/
  | users {t : Session} : t.root = s.root → t.cwd = s.cwd → s.switches ≤ t.switches → Edit s t
  | enter {ps : List String} : Path.AreParts ps → s.root.kindAt ps = some .dir →
      Edit s { s with cwd := Path.ofParts ps }
  /-- A node has changed, but neither its name nor which nodes are below it. -/
  | alter {path : String} {f : Node → Node} : Node.KeepsName f → (∀ m : Node, m.WellFormed → (f m).WellFormed) →
      (∀ m rs, (f m).kindAt rs = m.kindAt rs) → Edit s (s.modifyAt path f)
  | add {ps : List String} {e : Node} : Path.AreParts (ps ++ [e.name]) → e.WellFormed →
      s.root.kindAt (ps ++ [e.name]) = none → Edit s (s.addEntry (Path.ofParts ps) e)
  | detach {ps : List String} {name : String} : Path.AreParts (ps ++ [name]) →
      Edit s (s.detached (Path.ofParts (ps ++ [name])))
  /-- A node goes to another place, where nothing was but perhaps a file that a file replaces. -/
  | move {ss ds : List String} {old new : String} {n : Node} : Path.AreParts (ss ++ [old]) →
      Path.AreParts (ds ++ [new]) → s.root.get? (ss ++ [old]) = some n → s.root.kindAt ds = some .dir →
      ¬ss ++ [old] <+: ds ++ [new] →
      s.root.kindAt (ds ++ [new]) = none ∨ s.root.kindAt (ds ++ [new]) = some .file ∧ n.kind = .file →
      Edit s (s.moved (Path.ofParts (ss ++ [old])) n (Path.ofParts ds) new)

abbrev Edits : Session → Session → Prop := Relation.ReflTransGen Edit

structure Stays (s t : Session) : Prop where
  placed : t.Placed
  kind : t.placeKind = s.placeKind ∨ t.placeKind = some .dir

variable {s t : Session}

theorem Placed.stays (h : s.Placed) : Stays s s := ⟨h, .inl rfl⟩

theorem Stays.trans {u : Session} (h : Stays s t) (h' : Stays t u) : Stays s u := by
  refine ⟨h'.placed, ?_⟩
  rcases h'.kind with hSame | hDir
  · rw [hSame]
    exact h.kind
  · exact .inr hDir

theorem Placed.isCanonical_resolve (h : s.Placed) (path : PathArg) : Path.isCanonical (s.resolve path) = true :=
  Path.isCanonical_resolve s.home path h.canonical

theorem Placed.exists_cwd (h : s.Placed) :
    ∃ qs, Path.AreParts qs ∧ s.cwd = Path.ofParts qs ∧ s.placeKind = s.root.kindAt qs := by
  obtain ⟨qs, hqs, hCwd⟩ := Path.isCanonical_iff.mp h.canonical
  refine ⟨qs, hqs, hCwd, ?_⟩
  rw [placeKind, hCwd, Path.split_ofParts hqs]

theorem isDirectory_cwd_iff (s : Session) : s.isDirectory s.cwd = true ↔ s.placeKind = some .dir :=
  Node.isDirAt_iff_kindAt

theorem TreeSound.placeKind (h : s.TreeSound) : s.placeKind = some .dir := s.isDirectory_cwd_iff.mp h.directory

theorem TreeSound.placed (h : s.TreeSound) : s.Placed := by
  refine ⟨h.wellFormed, h.name, h.isDir, h.canonical, ?_⟩
  rw [h.placeKind]
  exact Option.some_ne_none _

theorem Placed.treeSound (h : s.Placed) (hKind : s.placeKind = some .dir) : s.TreeSound :=
  ⟨h.wellFormed, h.name, h.canonical, s.isDirectory_cwd_iff.mpr hKind⟩

/-- A place is given by its parts, in the new tree and in the old one. -/
theorem Placed.stays_of_parts {qs : List String} (h : s.Placed) (hWellFormed : t.root.WellFormed)
    (hName : t.root.name = "/") (hRoot : t.root.isDir = true) (hqs : Path.AreParts qs)
    (hCwd : t.cwd = Path.ofParts qs)
    (hKind : t.root.kindAt qs = s.placeKind ∨ t.root.kindAt qs = some .dir) : Stays s t := by
  have hPlace : t.placeKind = t.root.kindAt qs := by rw [placeKind, hCwd, Path.split_ofParts hqs]
  have hCanonical : Path.isCanonical t.cwd = true := by
    rw [hCwd]
    exact Path.isCanonical_ofParts hqs
  refine ⟨⟨hWellFormed, hName, hRoot, hCanonical, ?_⟩, hPlace ▸ hKind⟩
  rw [hPlace]
  rcases hKind with hSame | hDir
  · rw [hSame]
    exact h.present
  · rw [hDir]
    exact Option.some_ne_none _

theorem isDir_of_kindAt_nil {n m : Node} (h : n.kindAt [] = m.kindAt []) (hm : m.isDir = true) :
    n.isDir = true := by
  rw [Node.kindAt_nil, Node.kindAt_nil, Option.some_inj] at h
  exact Node.kind_eq_dir_iff.mp (h.trans (Node.kind_eq_dir_iff.mpr hm))

theorem Placed.alter {path : String} {f : Node → Node} (h : s.Placed) (hf : Node.KeepsName f)
    (hKeep : ∀ m : Node, m.WellFormed → (f m).WellFormed) (hKinds : ∀ m rs, (f m).kindAt rs = m.kindAt rs) :
    Stays s (s.modifyAt path f) := by
  obtain ⟨qs, hqs, hCwd, hPlace⟩ := h.exists_cwd
  have hAll : ∀ rs, (s.modifyAt path f).root.kindAt rs = s.root.kindAt rs :=
    fun rs => Node.kindAt_modify hf hKinds _ rs s.root
  refine h.stays_of_parts (h.wellFormed.modify hf hKeep _) ?_ (isDir_of_kindAt_nil (hAll []) h.isDir) hqs hCwd ?_
  · exact (Node.name_modify hf _ _).trans h.name
  · exact .inl ((hAll qs).trans hPlace.symm)

theorem Placed.add {ps : List String} {e : Node} (h : s.Placed) (hps : Path.AreParts (ps ++ [e.name]))
    (he : e.WellFormed) (hFree : s.root.kindAt (ps ++ [e.name]) = none) :
    Stays s (s.addEntry (Path.ofParts ps) e) := by
  obtain ⟨qs, hqs, hCwd, hPlace⟩ := h.exists_cwd
  have hRoot := root_addEntry s hps.left e
  have hElsewhere : ∀ rs, ¬ps ++ [e.name] <+: rs →
      (s.addEntry (Path.ofParts ps) e).root.kindAt rs = s.root.kindAt rs := by
    intro rs hrs
    rw [hRoot, Node.kindAt_put_elsewhere h.wellFormed hrs]
  have hNotRoot : ¬ps ++ [e.name] <+: [] := by simp
  have hAway : ¬ps ++ [e.name] <+: qs := Node.not_prefix_of_kindAt (hPlace ▸ h.present) hFree
  refine h.stays_of_parts ?_ ?_ (isDir_of_kindAt_nil (hElsewhere [] hNotRoot) h.isDir) hqs hCwd ?_
  · rw [hRoot]
    exact Node.wellFormed_put h.wellFormed he (hps.right _ (List.mem_singleton_self _)) s.now ps
  · rw [hRoot, Node.name_modify (Node.keepsName_putEntry e s.now)]
    exact h.name
  · exact .inl ((hElsewhere qs hAway).trans hPlace.symm)

theorem Placed.detach {ps : List String} {name : String} (h : s.Placed) (hps : Path.AreParts (ps ++ [name])) :
    Stays s (s.detached (Path.ofParts (ps ++ [name]))) := by
  obtain ⟨qs, hqs, hCwd, hPlace⟩ := h.exists_cwd
  have hWithin : Path.isWithin s.cwd (Path.ofParts (ps ++ [name])) = true ↔ ps ++ [name] <+: qs := by
    rw [hCwd]
    exact Path.isWithin_iff hqs hps
  simp only [Session.detached, stepOut, cwd_removeEntry, Path.parentOf_ofParts hps, Path.baseName_ofParts hps,
    List.dropLast_concat, hWithin]
  have hRoot := root_removeEntry s hps.left name
  have hCwd' : (s.removeEntry (Path.ofParts ps) name).cwd = Path.ofParts qs := hCwd
  generalize s.removeEntry (Path.ofParts ps) name = u at hRoot hCwd' ⊢
  have hElsewhere : ∀ rs, ¬ps ++ [name] <+: rs → u.root.kindAt rs = s.root.kindAt rs := by
    intro rs hrs
    rw [hRoot, Node.kindAt_drop_elsewhere hrs]
  have hWellFormed : u.root.WellFormed := by
    rw [hRoot]
    exact Node.wellFormed_drop h.wellFormed name s.now ps
  have hName : u.root.name = "/" := by
    rw [hRoot, Node.name_modify (Node.keepsName_dropEntry name s.now)]
    exact h.name
  have hNotRoot : ¬ps ++ [name] <+: [] := by simp
  have hDir := isDir_of_kindAt_nil (hElsewhere [] hNotRoot) h.isDir
  split
  · rename_i hInside
    obtain ⟨rest, rfl⟩ := hInside
    have hAbove : ¬ps ++ [name] <+: ps := by
      intro hPrefix
      have hLength := hPrefix.length_le
      rw [List.length_append, List.length_singleton] at hLength
      omega
    have hPresent : s.root.kindAt (ps ++ name :: rest) ≠ none := by
      rw [List.append_cons, ← hPlace]
      exact h.present
    refine h.stays_of_parts hWellFormed hName hDir hps.left rfl (.inr ?_)
    exact (hElsewhere ps hAbove).trans (Node.kindAt_above hPresent)
  · rename_i hOutside
    exact h.stays_of_parts hWellFormed hName hDir hqs hCwd' (.inl ((hElsewhere qs hOutside).trans hPlace.symm))

theorem Placed.move {ss ds : List String} {old new : String} {n : Node} (h : s.Placed)
    (hSource : Path.AreParts (ss ++ [old])) (hTarget : Path.AreParts (ds ++ [new]))
    (hNode : s.root.get? (ss ++ [old]) = some n) (hDs : s.root.kindAt ds = some .dir)
    (hOutside : ¬ss ++ [old] <+: ds ++ [new])
    (hFree : s.root.kindAt (ds ++ [new]) = none ∨ s.root.kindAt (ds ++ [new]) = some .file ∧ n.kind = .file) :
    Stays s (s.moved (Path.ofParts (ss ++ [old])) n (Path.ofParts ds) new) := by
  obtain ⟨qs, hqs, hCwd, hPlace⟩ := h.exists_cwd
  have hOld := Node.name_of_get?_concat hNode
  have hWithin : Path.isWithin s.cwd (Path.ofParts (ss ++ [old])) = true ↔ ss ++ [old] <+: qs := by
    rw [hCwd]
    exact Path.isWithin_iff hqs hSource
  simp only [Session.moved, follow, cwd_addEntry, cwd_removeEntry, Path.parentOf_ofParts hSource,
    List.dropLast_concat, Path.join_ofParts hTarget.left, hOld, hWithin]
  have hCwd' : ((s.removeEntry (Path.ofParts ss) old).addEntry (Path.ofParts ds) (n.rename new)).cwd =
      Path.ofParts qs := hCwd
  have hRoot : ((s.removeEntry (Path.ofParts ss) old).addEntry (Path.ofParts ds) (n.rename new)).root =
      (s.root.modify (fun m => (m.dropEntry old).touch s.now) ss).modify
        (fun m => (m.putEntry (n.rename new)).touch s.now) ds := by
    rw [root_addEntry _ hTarget.left, root_removeEntry s hSource.left, now_removeEntry]
  generalize (s.removeEntry (Path.ofParts ss) old).addEntry (Path.ofParts ds) (n.rename new) = u at hRoot hCwd' ⊢
  have hNewName := Node.name_rename new n
  have hDs' : ¬ss ++ [old] <+: ds := fun hPrefix => hOutside (hPrefix.trans (List.prefix_append ds _))
  have hElsewhere : ∀ rs, ¬ss ++ [old] <+: rs → ¬ds ++ [new] <+: rs → u.root.kindAt rs = s.root.kindAt rs := by
    intro rs hrs hrs'
    rw [hRoot, Node.kindAt_move_elsewhere h.wellFormed hrs (hNewName.symm ▸ hrs')]
  have hBelow : ∀ rest, u.root.kindAt (ds ++ new :: rest) = n.kindAt rest := by
    intro rest
    rw [hRoot, Node.kindAt_move_below h.wellFormed hDs hDs' hNewName rest,
      Node.kindAt_congr (Node.isDir_rename new n) (Node.child?_rename new n)]
  have hWellFormed : u.root.WellFormed := by
    rw [hRoot]
    refine Node.wellFormed_move h.wellFormed ((h.wellFormed.get? hNode).rename new) ?_
    rw [hNewName]
    exact hTarget.right new (List.mem_singleton_self new)
  have hName : u.root.name = "/" := by
    rw [hRoot, Node.name_move]
    exact h.name
  have hDir : u.root.isDir = true :=
    isDir_of_kindAt_nil (hElsewhere [] (by simp) (by simp)) h.isDir
  split
  · rename_i hInside
    -- the session goes with the node, and is at the same place below it
    obtain ⟨rest, rfl⟩ := hInside
    rw [hCwd, Path.ofParts_append_drop (List.concat_ne_nil new ds) (List.concat_ne_nil old ss)]
    refine h.stays_of_parts hWellFormed hName hDir (hTarget.append hqs.right) rfl (.inl ?_)
    show u.root.kindAt (ds ++ [new] ++ rest) = s.placeKind
    rw [← List.append_cons, hBelow, hPlace, Node.kindAt_append, hNode, Option.bind_some]
  · rename_i hAway
    refine h.stays_of_parts hWellFormed hName hDir hqs hCwd' (.inl ?_)
    rw [hPlace]
    by_cases hNew : ds ++ [new] <+: qs
    · -- the session is at the file that is replaced
      rcases hFree with hNone | ⟨hFile, hKind⟩
      · exact absurd hNew (Node.not_prefix_of_kindAt (hPlace ▸ h.present) hNone)
      · by_cases hEq : ds ++ [new] = qs
        · rw [← hEq, hFile, hBelow, Node.kindAt_nil, hKind]
        · have hAbove := Node.kindAt_of_ne hNew hEq (hPlace ▸ h.present)
          rw [hFile] at hAbove
          cases hAbove
    · exact hElsewhere qs hAway hNew

theorem Placed.enter {ps : List String} (h : s.Placed) (hps : Path.AreParts ps)
    (hDir : s.root.kindAt ps = some .dir) : Stays s { s with cwd := Path.ofParts ps } :=
  h.stays_of_parts h.wellFormed h.name h.isDir hps rfl (.inr hDir)

theorem Placed.of_tree_eq (h : s.Placed) (hRoot : t.root = s.root) (hCwd : t.cwd = s.cwd) : Stays s t := by
  obtain ⟨qs, hqs, hPath, hPlace⟩ := h.exists_cwd
  refine h.stays_of_parts (hRoot ▸ h.wellFormed) (hRoot ▸ h.name) (hRoot ▸ h.isDir) hqs (hCwd.trans hPath) ?_
  rw [hRoot, hPlace]
  exact .inl rfl

theorem Edit.stays (hEdit : Edit s t) (h : s.Placed) : Stays s t := by
  cases hEdit with
  | users hRoot hCwd _ => exact h.of_tree_eq hRoot hCwd
  | enter hps hDir => exact h.enter hps hDir
  | alter hf hKeep hKinds => exact h.alter hf hKeep hKinds
  | add hps he hFree => exact h.add hps he hFree
  | detach hps => exact h.detach hps
  | move hSource hTarget hNode hDs hOutside hFree => exact h.move hSource hTarget hNode hDs hOutside hFree

theorem Edits.stays (hEdits : Edits s t) (h : s.Placed) : Stays s t := by
  induction hEdits with
  | refl => exact h.stays
  | tail _ hEdit ih => exact ih.trans (hEdit.stays ih.placed)

theorem switches_stepOut (s : Session) (path : String) : (s.stepOut path).switches = s.switches := by
  unfold stepOut
  split
  · rfl
  · rfl

theorem switches_follow (s : Session) (source final : String) : (s.follow source final).switches = s.switches := by
  unfold follow
  split
  · rfl
  · rfl

theorem switches_detached (s : Session) (target : String) : (s.detached target).switches = s.switches := by
  rw [Session.detached, switches_stepOut, switches_removeEntry]

theorem switches_moved (s : Session) (source : String) (n : Node) (directory name : String) :
    (s.moved source n directory name).switches = s.switches := by
  rw [Session.moved, switches_follow, switches_addEntry, switches_removeEntry]

theorem Edit.switches_le (hEdit : Edit s t) : s.switches ≤ t.switches := by
  cases hEdit with
  | users _ _ hSwitches => exact hSwitches
  | enter => exact Nat.le_refl s.switches
  | alter => exact Nat.le_refl s.switches
  | add => exact Nat.le_refl s.switches
  | detach => exact Nat.le_of_eq (switches_detached s _).symm
  | move => exact Nat.le_of_eq (switches_moved s _ _ _ _).symm

theorem Edits.switches_le (hEdits : Edits s t) : s.switches ≤ t.switches := by
  induction hEdits with
  | refl => exact Nat.le_refl s.switches
  | tail _ hEdit ih => exact Nat.le_trans ih hEdit.switches_le

end VirtualShell.Session
