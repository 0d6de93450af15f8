import VirtualShell.Proofs.Seed
import VirtualShell.Proofs.Session.Adoption
import VirtualShell.Proofs.Session.Preservation
import VirtualShell.Session.Integrity

/-!
# Runs of sessions

`Reached` holds of the sessions that operations lead to, in blocks of elevation inside of each other.
Snapshots that are rejected belong to a run, those that are taken over do not. Every session that is
reached is sound.
-/
namespace VirtualShell
set_option autoImplicit false

namespace Session

/-- A session that a run leads to, with the marks of the blocks that are open, innermost first. -/
inductive Reached : List Mark → Session → Prop where
  | start {username : String} {now : Float} {s : Session} : Session.fresh? username now = some s → Reached [] s
  | wait {marks : List Mark} {s : Session} (now : Float) : Reached marks s → Reached marks { s with now := now }
  | operate {marks : List Mark} {s : Session} (o : Operation) : Reached marks s → Reached marks (s.apply o).2
  | reject {marks : List Mark} {s : Session} {fault : Fault} (blob : Json) : Reached marks s →
      ((adopt blob).run s).1 = .error fault → Reached marks ((adopt blob).run s).2
  | enter {marks : List Mark} {s : Session} : Reached marks s →
      Reached (s.enterElevation.1 :: marks) s.enterElevation.2
  | leave {mark : Mark} {marks : List Mark} {s : Session} : Reached (mark :: marks) s →
      Reached marks (leaveElevation mark s).2

/-- What every step of a run keeps. -/
structure Inv (marks : List Mark) (s : Session) : Prop where
  sound : s.Sound
  elevations : s.elevations = marks.map Mark.username

theorem Inv.operate {marks : List Mark} {s : Session} (h : Inv marks s) (o : Operation) :
    Inv marks (s.apply o).2 := by
  apply (steps_kept o h.sound).keeps (P := Inv marks)
  · exact fun _ t ht => ⟨ht.sound, ht.elevations.trans h.elevations⟩
  · exact h

/-- The administrator, who acts in an elevated block, has an account. -/
theorem AccountsSound.enter {s : Session} (h : s.AccountsSound) : s.enterElevation.2.AccountsSound := by
  obtain ⟨hAdmin, hUser, hElevations, hAccount, hGroup⟩ := h
  refine ⟨hAdmin, hAdmin, ?_, hAccount, hGroup⟩
  intro u hu
  rcases List.mem_cons.mp hu with rfl | hu
  · exact hUser
  · exact hElevations u hu

theorem AccountsSound.leave {mark : Mark} {rest : List String} {s : Session} (h : s.AccountsSound)
    (hOpen : s.elevations = mark.username :: rest) : (leaveElevation mark s).2.AccountsSound := by
  obtain ⟨hAdmin, hUser, hElevations, hAccount, hGroup⟩ := h
  rw [hOpen] at hElevations
  unfold leaveElevation
  rw [hOpen]
  refine ⟨hAdmin, ?_, ?_, hAccount, hGroup⟩
  · dsimp only
    split
    · exact hElevations _ List.mem_cons_self
    · exact hUser
  · exact fun u hu => hElevations u (List.mem_cons_of_mem _ hu)

theorem elevations_enter {marks : List Mark} {s : Session} (h : s.elevations = marks.map Mark.username) :
    s.enterElevation.2.elevations = (s.enterElevation.1 :: marks).map Mark.username := by
  show s.username :: s.elevations = _
  rw [h]
  rfl

theorem elevations_leave {mark : Mark} {marks : List Mark} {s : Session}
    (h : s.elevations = (mark :: marks).map Mark.username) :
    (leaveElevation mark s).2.elevations = marks.map Mark.username := by
  have hOpen : s.elevations = mark.username :: marks.map Mark.username := h
  unfold leaveElevation
  rw [hOpen]

theorem root_leave (mark : Mark) (s : Session) : (leaveElevation mark s).2.root = s.root := by
  unfold leaveElevation
  split
  · rfl
  · rfl

theorem cwd_leave (mark : Mark) (s : Session) : (leaveElevation mark s).2.cwd = s.cwd := by
  unfold leaveElevation
  split
  · rfl
  · rfl

theorem accounts_leave (mark : Mark) (s : Session) : (leaveElevation mark s).2.accounts = s.accounts := by
  unfold leaveElevation
  split
  · rfl
  · rfl

theorem Inv.enter {marks : List Mark} {s : Session} (h : Inv marks s) :
    Inv (s.enterElevation.1 :: marks) s.enterElevation.2 :=
  ⟨⟨h.sound.tree.of_tree_eq rfl rfl, h.sound.accounts.enter⟩, elevations_enter h.elevations⟩

theorem Inv.leave {mark : Mark} {marks : List Mark} {s : Session} (h : Inv (mark :: marks) s) :
    Inv marks (leaveElevation mark s).2 :=
  ⟨⟨h.sound.tree.of_tree_eq (root_leave mark s) (cwd_leave mark s), h.sound.accounts.leave h.elevations⟩,
    elevations_leave h.elevations⟩

theorem Reached.inv {marks : List Mark} {s : Session} (h : Reached marks s) : Inv marks s := by
  induction h with
  | start hFresh =>
    refine ⟨Sound.of_fresh? hFresh, ?_⟩
    obtain ⟨_, -, rfl⟩ := Option.map_eq_some_iff.mp hFresh
    rfl
  | wait now _ ih =>
    obtain ⟨⟨hTree, hAccounts⟩, hElevations⟩ := ih
    exact ⟨⟨hTree.of_tree_eq rfl rfl, hAccounts.of_same ⟨rfl, rfl, rfl, rfl⟩⟩, hElevations⟩
  | operate o _ ih => exact ih.operate o
  | reject blob _ hFail ih =>
    rw [adopt_unchanged hFail]
    exact ih
  | enter _ ih => exact ih.enter
  | leave _ ih => exact ih.leave

def perform (s : Session) (os : List Operation) : Session := os.foldl (fun t o => (t.apply o).2) s

theorem Reached.perform {marks : List Mark} {s : Session} (h : Reached marks s) (os : List Operation) :
    Reached marks (s.perform os) := by
  induction os generalizing s with
  | nil => exact h
  | cons o os ih => exact ih (h.operate o)

/-- A file has no entries, and what is found under a name has this name, whatever the entries are. -/
theorem problems_node (path : String) (n : Node) : n.problems path = [] := by
  have hChildren : (n.kind == .file && !n.entries.isEmpty) = false := by
    cases n <;> rfl
  have hNames : ∀ e ∈ n.entries, (n.child? e.name).bind (fun found => if found.name == e.name then none
      else some (Path.join path e.name ++ ": name mismatch '" ++ found.name ++ "'")) = none := by
    intro e _
    rw [Option.bind_eq_none_iff]
    intro found hFound
    rw [if_pos (beq_iff_eq.mpr (Node.name_of_child? hFound))]
  simp only [Node.problems, hChildren, Bool.false_eq_true, if_false, List.nil_append]
  exact List.filterMap_eq_nil_iff.mpr hNames

/-- So the place of a session is all that can be wrong with it. -/
theorem problems_eq_nil_iff {s : Session} : s.problems = [] ↔ s.isDirectory s.cwd = true := by
  have hNodes : ((s.root.walk "/").flatMap fun visited => visited.2.problems visited.1) = [] :=
    List.flatMap_eq_nil_iff.mpr fun visited _ => problems_node visited.1 visited.2
  simp [problems, hNodes]

/-- Every session that is reached has a whole tree below its root and is in a directory of it. -/
theorem Reached.tree_intact {marks : List Mark} {s : Session} (h : Reached marks s) :
    s.root.isDir = true ∧ s.root.name = "/" ∧ (∀ path n, (path, n) ∈ s.root.walk "/" → n.Intact) ∧
      Path.isCanonical s.cwd = true ∧ s.isDirectory s.cwd = true ∧ s.problems = [] := by
  obtain ⟨hTree, -⟩ := h.inv.sound
  refine ⟨hTree.isDir, hTree.name, ?_, hTree.canonical, hTree.directory, problems_eq_nil_iff.mpr hTree.directory⟩
  exact fun path n hn => (hTree.wellFormed.of_mem_walk hn).intact

/-- The directory that the session is in is moved, and the session with it. -/
theorem intact_after_move : ∃ s, (Session.fresh? "user" 0.0).map (·.perform
      [.createDirectory (some "a/b") true, .changeDirectory (some "a/b"),
        .move (some "/home/user/a") (some "/tmp/c")]) = some s ∧
    s.cwd = "/tmp/c/b" ∧ s.root.isDir = true ∧ s.root.name = "/" ∧
      (∀ path n, (path, n) ∈ s.root.walk "/" → n.Intact) ∧ Path.isCanonical s.cwd = true ∧
      s.isDirectory s.cwd = true ∧ s.problems = [] := by
  have hCwd : (Session.fresh? "user" 0.0).map (fun s => (s.perform
      [.createDirectory (some "a/b") true, .changeDirectory (some "a/b"),
        .move (some "/home/user/a") (some "/tmp/c")]).cwd) = some "/tmp/c/b" := by
    decide +kernel
  obtain ⟨s, hFresh, hMoved⟩ := Option.map_eq_some_iff.mp hCwd
  exact ⟨_, congrArg _ hFresh, hMoved, ((Reached.start hFresh).perform _).tree_intact⟩

/-- An operation that fails leaves the session as it was, and so does a snapshot that is rejected. -/
theorem Reached.unchanged_of_error {marks : List Mark} {s : Session} (h : Reached marks s) :
    (∀ o fault, (s.apply o).1 = .error fault → (s.apply o).2 = s) ∧
      ∀ blob fault, ((adopt blob).run s).1 = .error fault → ((adopt blob).run s).2 = s := by
  constructor
  · intro o fault hFail
    exact (steps_kept o h.inv.sound).unchanged fault _ (Prod.ext hFail rfl)
  · exact fun blob fault hFail => adopt_unchanged hFail

/-- Whoever may not remove a directory has not removed a part of it. -/
theorem unchanged_after_refused_removal : ∃ s fault, Session.fresh? "user" 0.0 = some s ∧
    (s.apply (.remove (some "/etc") true)).1 = .error fault ∧
      (s.apply (.remove (some "/etc") true)).2 = s := by
  have hFail : (Session.fresh? "user" 0.0).map
      (fun s => (s.apply (.remove (some "/etc") true)).1.toOption.isNone) = some true := by
    decide +kernel
  obtain ⟨s, hFresh, hNone⟩ := Option.map_eq_some_iff.mp hFail
  cases hResult : (s.apply (.remove (some "/etc") true)).1 with
  | ok answer =>
    rw [hResult] at hNone
    cases hNone
  | error fault => exact ⟨s, fault, hFresh, hResult, (Reached.start hFresh).unchanged_of_error.1 _ fault hResult⟩

end Session

end VirtualShell
