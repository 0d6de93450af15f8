import VirtualShell.Proofs.Session.Enrolment
import VirtualShell.Proofs.Session.Rights
import VirtualShell.Proofs.Tree.Places

/-!
# Removal

Whether a node can be taken out of the tree is decided by its place and by rights alone: those in the directories above
it, and for a directory with all that it holds those in every directory from it on. What is left is the tree without
that node, and a session that was inside of it is in the directory above.
-/
namespace VirtualShell.Session
set_option autoImplicit false

open Update

/-- The entries of every directory stand in the order of their names, and the path of the session is canonical. -/
structure Orderly (s : Session) : Prop where
  ordered : s.root.Everywhere Node.Ordered
  canonical : Path.isCanonical s.cwd = true

/-- The node at a place may be taken out of its directory. -/
structure Detachable (s : Session) (place : List String) (n : Node) : Prop where
  found : s.root.get? place = some n
  searchable : s.Searchable place
  writable : ∀ d, s.root.get? place.dropLast = some d → s.subject.may .write d = .ok true

/-- The user has every right in every directory from `n` on. -/
def MayClear (s : Session) (n : Node) : Prop :=
  ∀ rest d, n.get? rest = some d → d.isDir = true → ∀ a, s.subject.may a d = .ok true

/-- `t` is the session `s` after the node at a place was removed. -/
structure Removed (s : Session) (place : List String) (t : Session) : Prop where
  tree : Node.TakenOut s.now place s.root t.root
  inside : place <+: Path.split s.cwd → t.cwd = Path.ofParts place.dropLast
  outside : ¬place <+: Path.split s.cwd → t.cwd = s.cwd
  identity : SameIdentity s t

variable {s : Session} {path : PathArg} {full : String} {n : Node} {attempt : Attempt}

theorem TreeSound.orderly (h : s.TreeSound) : s.Orderly := ⟨h.wellFormed.everywhere_ordered, h.canonical⟩

theorem Orderly.split_ne_nil (h : s.Orderly) (hRoot : s.resolve path ≠ "/") : Path.split (s.resolve path) ≠ [] := by
  rw [split_resolve h.canonical hRoot]
  exact List.concat_ne_nil _ _

theorem lookup_entry (h : Path.split full ≠ []) :
    (s.lookup (Path.parentOf full)).bind (·.child? (Path.baseName full)) = s.lookup full := by
  rw [lookup, lookup, Path.split_eq_concat h, Node.get?_concat]

theorem detachable_iff (h : Path.split full ≠ []) : s.Detachable (Path.split full) n ↔ s.reach full path = .ok n ∧
    ∃ parent, s.parentNode full = .ok parent ∧ s.requireModifiable parent attempt = .ok () := by
  simp only [reach_eq_ok_iff, parentNode_eq_ok_iff, requireModifiable_eq_ok_iff]
  -- the checks take the directory above by its path, `Detachable` by its place
  constructor
  · rintro ⟨hn, hSearch, hWrite⟩
    have hEntry : (s.lookup (Path.parentOf full)).bind (·.child? (Path.baseName full)) = some n :=
      (lookup_entry h).trans hn
    obtain ⟨parent, hParent, -⟩ := Option.bind_eq_some_iff.mp hEntry
    refine ⟨⟨hn, hSearch⟩, parent, hParent, hWrite parent ?_, ?_⟩
    · rw [← Path.split_parentOf]
      exact hParent
    · exact hSearch _ _ parent (Path.split_eq_concat h) (List.cons_ne_nil _ _) hParent
  · rintro ⟨⟨hn, hSearch⟩, parent, hParent, hWrite, -⟩
    refine ⟨hn, hSearch, fun d hd => ?_⟩
    rw [← Path.split_parentOf] at hd
    cases hParent.symm.trans hd
    exact hWrite

theorem clearable_iff (h : n.Everywhere Node.Ordered) (full : String) (recursive : Bool) :
    (n.isDir = true → recursive = true) ∧ s.requireRemovable (if n.isDir then n.walk full else []) = .ok () ↔
      n.isDir = false ∨ recursive = true ∧ s.MayClear n := by
  have hWalk : s.requireRemovable (n.walk full) = .ok () ↔ s.MayClear n := by
    rw [requireRemovable_eq_ok_iff]
    exact (Node.everywhere_iff_walk full).symm.trans (Node.everywhere_iff_get? h)
  cases hDir : n.isDir with
  | false => simp [requireRemovable]
  | true => simp [hWalk]

theorem takenOut_detached (h : Path.split full ≠ []) :
    Node.TakenOut s.now (Path.split full) s.root (s.detached full).root := by
  simp only [detached, root_stepOut, removeEntry, modifyAt]
  rw [Path.split_eq_concat h]
  exact Node.takenOut_drop s.root _ _ s.now

theorem Orderly.removed_detached (h : s.Orderly) (hRoot : s.resolve path ≠ "/") :
    s.Removed (Path.split (s.resolve path)) (s.detached (s.resolve path)) := by
  have hWithin : Path.isWithin s.cwd (s.resolve path) = true ↔
      Path.split (s.resolve path) <+: Path.split s.cwd :=
    Path.isWithin_iff_split h.canonical (Path.isCanonical_resolve s.home path h.canonical)
  refine ⟨takenOut_detached (h.split_ne_nil hRoot), fun hInside => ?_, fun hOutside => ?_, sameIdentity_detached s _⟩
  · rw [detached, stepOut, cwd_removeEntry, if_pos (hWithin.mpr hInside)]
    rfl
  · rw [detached, stepOut, cwd_removeEntry, if_neg (hOutside ∘ hWithin.mp), cwd_removeEntry]

theorem remove_returns {recursive : Bool} {parent : Node} (hRoot : s.resolve path ≠ "/")
    (hn : s.reach (s.resolve path) path = .ok n) (hParent : s.parentNode (s.resolve path) = .ok parent)
    (hRecursive : n.isDir = true → recursive = true)
    (hModify : s.requireModifiable parent (.remove path.text) = .ok ())
    (hClear : s.requireRemovable (if n.isDir then n.walk (s.resolve path) else []) = .ok ())
    (hEntry : (s.lookup (Path.parentOf (s.resolve path))).bind (·.child? (Path.baseName (s.resolve path))) = some n) :
    (remove path recursive).Returns s fun _ _ => True := by
  unfold remove
  refine returns_session_bind (returns_error_ite (by simpa using hRoot) ?_)
  refine returns_lift_bind hn (returns_lift_bind hParent (returns_error_ite ?_ ?_))
  · cases hDir : n.isDir <;> simp [hDir, hRecursive]
  · refine returns_lift_bind hModify (returns_lift_bind hClear ?_)
    exact returns_bind (detach_returns hEntry) fun _ _ _ => returns_pure trivial

theorem removeDirectory_returns {parent : Node} (hRoot : s.resolve path ≠ "/")
    (hn : s.reach (s.resolve path) path = .ok n) (hDir : n.isDir = true) (hEmpty : n.entries = [])
    (hParent : s.parentNode (s.resolve path) = .ok parent)
    (hModify : s.requireModifiable parent (.removeDirectory path.text) = .ok ())
    (hEntry : (s.lookup (Path.parentOf (s.resolve path))).bind (·.child? (Path.baseName (s.resolve path))) = some n) :
    (removeDirectory path).Returns s fun _ _ => True := by
  unfold removeDirectory
  refine returns_session_bind (returns_error_ite (by simpa using hRoot) ?_)
  refine returns_lift_bind hn (returns_error_ite (by simp [hDir]) (returns_error_ite (by simp [hEmpty]) ?_))
  refine returns_lift_bind hParent (returns_lift_bind hModify ?_)
  exact returns_bind (detach_returns hEntry) fun _ _ _ => returns_pure trivial

theorem Orderly.remove_decided (h : s.Orderly) (path : PathArg) (recursive : Bool) :
    (remove path recursive).Decided s
      (s.resolve path ≠ "/" ∧ ∃ n, s.Detachable (Path.split (s.resolve path)) n ∧
        (n.isDir = false ∨ recursive = true ∧ s.MayClear n))
      fun target t => target = s.resolve path ∧ s.Removed (Path.split target) t := by
  apply decided_of_ends
  · refine (remove_ends s path recursive).mono ?_
    rintro target t ⟨rfl, hRoot, n, parent, hn, hParent, hRecursive, hModify, hClear, -, rfl⟩
    have hDetach := (detachable_iff (h.split_ne_nil hRoot)).mpr ⟨hn, parent, hParent, hModify⟩
    have hCase := (clearable_iff (h.ordered.get? hDetach.found) _ recursive).mp ⟨hRecursive, hClear⟩
    exact ⟨⟨hRoot, n, hDetach, hCase⟩, rfl, h.removed_detached hRoot⟩
  · rintro ⟨hRoot, n, hDetach, hCase⟩
    have hPlace := h.split_ne_nil hRoot
    obtain ⟨hn, parent, hParent, hModify⟩ := (detachable_iff hPlace).mp hDetach
    obtain ⟨hRecursive, hClear⟩ := (clearable_iff (h.ordered.get? hDetach.found) _ recursive).mpr hCase
    exact remove_returns hRoot hn hParent hRecursive hModify hClear ((lookup_entry hPlace).trans hDetach.found)

theorem Orderly.removeDirectory_decided (h : s.Orderly) (path : PathArg) :
    (removeDirectory path).Decided s
      (s.resolve path ≠ "/" ∧ ∃ n, s.Detachable (Path.split (s.resolve path)) n ∧ n.isDir = true ∧ n.entries = [])
      fun target t => target = s.resolve path ∧ s.Removed (Path.split target) t := by
  apply decided_of_ends
  · refine (removeDirectory_ends s path).mono ?_
    rintro target t ⟨rfl, hRoot, n, parent, hn, hDir, hEmpty, hParent, hModify, -, rfl⟩
    have hDetach := (detachable_iff (h.split_ne_nil hRoot)).mpr ⟨hn, parent, hParent, hModify⟩
    exact ⟨⟨hRoot, n, hDetach, hDir, hEmpty⟩, rfl, h.removed_detached hRoot⟩
  · rintro ⟨hRoot, n, hDetach, hDir, hEmpty⟩
    have hPlace := h.split_ne_nil hRoot
    obtain ⟨hn, parent, hParent, hModify⟩ := (detachable_iff hPlace).mp hDetach
    exact removeDirectory_returns hRoot hn hDir hEmpty hParent hModify ((lookup_entry hPlace).trans hDetach.found)

/-- A removal succeeds if and only if the rights that it needs are there, and then it takes out what it is to take
out and nothing else. -/
theorem Orderly.removal_exact (h : s.Orderly) (path : PathArg) :
    (∀ recursive, (remove path recursive).Decided s
      (s.resolve path ≠ "/" ∧ ∃ n, s.Detachable (Path.split (s.resolve path)) n ∧
        (n.isDir = false ∨ recursive = true ∧ s.MayClear n))
      fun target t => target = s.resolve path ∧ s.Removed (Path.split target) t) ∧
    (removeDirectory path).Decided s
      (s.resolve path ≠ "/" ∧ ∃ n, s.Detachable (Path.split (s.resolve path)) n ∧ n.isDir = true ∧ n.entries = [])
      fun target t => target = s.resolve path ∧ s.Removed (Path.split target) t :=
  ⟨fun recursive => h.remove_decided path recursive, h.removeDirectory_decided path⟩

def belowRemoved : List Operation :=
  [.createDirectory (some "a/b") true, .createDirectory (some "ab") false, .changeDirectory (some "a/b")]

/-- Whoever removes the directory above the one that he is in gets out of it. -/
theorem removal_around_session : ∃ s t n, (Session.fresh? "user" 0.0).map (·.perform belowRemoved) = some s ∧
    s.Orderly ∧ s.cwd = "/home/user/a/b" ∧ s.Detachable ["home", "user", "a"] n ∧
    (n.isDir = false ∨ true = true ∧ s.MayClear n) ∧
    (remove (some "/home/user/a") true).run s = (.ok "/home/user/a", t) ∧
    s.Removed ["home", "user", "a"] t ∧ t.cwd = "/home/user" := by
  have hRun : (Session.fresh? "user" 0.0).map (fun s =>
      let u := s.perform belowRemoved
      (u.cwd, u.resolve (some "/home/user/a"), ((remove (some "/home/user/a") true).run u).1.toOption)) =
      some ("/home/user/a/b", "/home/user/a", some "/home/user/a") := by
    decide +kernel
  have hSplit : Path.split "/home/user/a" = ["home", "user", "a"] := by decide
  obtain ⟨s, hFresh, hRemoved⟩ := Option.map_eq_some_iff.mp hRun
  simp only [Prod.mk.injEq] at hRemoved
  obtain ⟨hCwd, hResolve, hOk⟩ := hRemoved
  have hOrderly : (s.perform belowRemoved).Orderly := ((Reached.start hFresh).perform _).inv.sound.tree.orderly
  have hDecided := (hOrderly.removal_exact (some "/home/user/a")).1 true
  obtain ⟨t, hEnd⟩ := exists_run_eq hOk
  obtain ⟨-, n, hDetach, hClear⟩ := hDecided.succeeds.mp ⟨_, t, hEnd⟩
  obtain ⟨-, hRemoved⟩ := hDecided.answer _ t hEnd
  rw [hResolve, hSplit] at hDetach
  rw [hSplit] at hRemoved
  refine ⟨_, t, n, congrArg _ hFresh, hOrderly, hCwd, hDetach, hClear, hEnd, hRemoved, ?_⟩
  rw [hRemoved.inside (by rw [hCwd]; decide)]
  decide

end VirtualShell.Session
