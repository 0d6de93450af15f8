import VirtualShell.Proofs.Session.Barred

/-!
# Moving and copying around a closed directory

Moving and copying tell a little of what lies below a directory that the acting user may not search: whether a
destination below it is a directory, and what a copy would take the place of in it. They tell nothing else, and the
first shows only in destinations that end in a slash or in an unsafe name.
-/
namespace VirtualShell
set_option autoImplicit false

theorem Node.SameUpTo.isOccupied {v w : Spot} {k l n m : Node} (h : SameUpTo w n m) (hAway : w ≠ some [])
    (hMoved : SameUpTo v k l)
    (name : String) : Session.isOccupied m name l = Session.isOccupied n name k := by
  unfold Session.isOccupied
  rcases h.child? hAway name with ⟨hm, hn⟩ | ⟨e, e', hn, hm, hSame⟩
  · rw [hm, hn]
  · rw [hm, hn]
    dsimp only
    rw [hSame.isDir, hMoved.isDir]

namespace Session

open Update

/-- The sessions differ only in what lies below a directory that the acting user may not search. -/
structure Unseen (ps : List String) (s s' : Session) : Prop where
  wellFormed : s.root.WellFormed
  wellFormed' : s'.root.WellFormed
  canonical : Path.isCanonical s.cwd = true
  closed : s.Closed ps
  same : s'.emptied (some ps) = s.emptied (some ps)

theorem requireReadable_congr {s s' : Session} (h : s'.subject = s.subject) (xs : List (String × Node)) :
    s'.requireReadable xs = s.requireReadable xs := by
  induction xs with
  | nil => rfl
  | cons x xs ih => rw [requireReadable, requireReadable, h, ih]

theorem requireReadable_append (s : Session) (xs ys : List (String × Node)) :
    s.requireReadable (xs ++ ys) = s.requireReadable xs >>= fun _ => s.requireReadable ys := by
  induction xs with
  | nil => rfl
  | cons x xs ih =>
    rw [List.cons_append, requireReadable, requireReadable, ih]
    cases s.subject.mayAll x.2 (if x.2.isDir then [.read, .execute] else [.read]) with
    | error fault => rfl
    | ok may => cases may <;> rfl

theorem requireReadable_walkList {s : Session} {w : Spot} {es : List Node}
    (h : ∀ e ∈ es, ∀ path,
      s.requireReadable ((e.emptied (Spot.enter e.name w)).walk path) = s.requireReadable (e.walk path))
    (path : String) : s.requireReadable (Node.walkList path (es.map fun e => e.emptied (Spot.enter e.name w))) =
      s.requireReadable (Node.walkList path es) := by
  induction es with
  | nil => rfl
  | cons e es ih =>
    obtain ⟨he, hes⟩ := List.forall_mem_cons.mp h
    rw [List.map_cons, Node.walkList, Node.walkList, Node.name_emptied, requireReadable_append,
      requireReadable_append, he, ih hes]

/-- A subtree that is copied is looked at down to the closed directory, and not below it. -/
theorem requireReadable_emptied {s : Session} {w : Spot} {n : Node} (h : s.subject.Bars w n) (path : String) :
    s.requireReadable ((n.emptied w).walk path) = s.requireReadable (n.walk path) := by
  induction n using Node.induct generalizing w path with
  | file i c => rw [Node.emptied_file]
  | dir i es ih =>
    by_cases hHere : w = some []
    · -- Neither walk gets past this directory.
      subst hHere
      have hClosed := Subject.not_mayAll_of_closed (h.closed [] _ rfl rfl)
      have hSame : s.subject.mayAll (.dir i []) [.read, .execute] = s.subject.mayAll (.dir i es) [.read, .execute] :=
        s.subject.mayAll_emptied [.read, .execute] (some []) (.dir i es)
      show s.requireReadable ((Node.dir i []).walk path) = _
      rw [Node.walk, Node.walk, requireReadable, requireReadable]
      simp only [Node.isDir, if_true, hSame]
      cases hMay : s.subject.mayAll (.dir i es) [.read, .execute] with
      | error fault => rfl
      | ok may =>
        cases may with
        | false => rfl
        | true => exact absurd hMay hClosed
    · have hSame := s.subject.mayAll_emptied [.read, .execute] w (.dir i es)
      have hList := requireReadable_walkList (fun e he => ih e he (h.enter he)) path
      rw [Node.emptied_dir hHere] at hSame ⊢
      rw [Node.walk, Node.walk, requireReadable, requireReadable, hList]
      simp only [Node.isDir, if_true, hSame]

namespace Unseen

variable {ps : List String} {s s' : Session} {n n' : Node} {full : String} {source path : PathArg}

section

variable (h : Unseen ps s s')

include h

theorem subject : s'.subject = s.subject := by simpa using congrArg Session.subject h.same

theorem resolve (path : PathArg) : s'.resolve path = s.resolve path := by
  simpa using congrArg (·.resolve path) h.same

theorem root : Node.SameUpTo (some ps) s.root s'.root := congrArg Session.root h.same

theorem bars : s.subject.Bars (some ps) s.root := h.closed.bars h.wellFormed.everywhere_ordered

theorem bars' : s'.subject.Bars (some ps) s'.root := (h.closed.congr h.same).bars h.wellFormed'.everywhere_ordered

theorem reach_agree (full : String) (path : PathArg) :
    Result.Agree (Node.SameUpTo (Spot.follow (some ps) (Path.split full))) (s.reach full path)
      (s'.reach full path) := by
  refine Result.agree_of_map_eq ?_
  rw [← reach_emptied h.bars, ← reach_emptied h.bars', h.same]

theorem reachDirectory_agree (full : String) (path : PathArg) :
    Result.Agree (Node.SameUpTo (Spot.follow (some ps) (Path.split full))) (s.reachDirectory full path)
      (s'.reachDirectory full path) := by
  refine Result.agree_of_map_eq ?_
  rw [← reachDirectory_emptied h.bars, ← reachDirectory_emptied h.bars', h.same]

theorem lookup_eq (hOutside : ¬Below ps full) :
    (s'.lookup full).map (Node.emptied (Spot.follow (some ps) (Path.split full))) =
      (s.lookup full).map (Node.emptied (Spot.follow (some ps) (Path.split full))) := by
  rw [lookup, lookup, ← Node.get?_emptied hOutside, ← Node.get?_emptied hOutside, h.root]

theorem isDirectory_eq (hOutside : ¬Below ps full) : s'.isDirectory full = s.isDirectory full := by
  have hLookup := congrArg (Option.map Node.isDir) (h.lookup_eq hOutside)
  simp only [Option.map_map, Function.comp_def, Node.isDir_emptied] at hLookup
  unfold isDirectory
  cases hs : s.lookup full <;> cases hs' : s'.lookup full <;> simp_all

theorem parentNode_agree (hOutside : ¬Below ps (Path.parentOf full)) :
    Result.Agree (Node.SameUpTo (Spot.follow (some ps) (Path.split (Path.parentOf full)))) (s.parentNode full)
      (s'.parentNode full) := by
  have hLookup := h.lookup_eq hOutside
  unfold parentNode
  cases hs : s.lookup (Path.parentOf full) with
  | none =>
    rw [hs] at hLookup
    rw [Option.map_eq_none_iff.mp hLookup]
    exact .error _
  | some d =>
    rw [hs] at hLookup
    obtain ⟨d', hd', hSame⟩ := Option.map_eq_some_iff.mp hLookup
    rw [hd']
    exact .ok hSame

theorem requireModifiable_eq {w : Spot} (hSame : Node.SameUpTo w n n') (attempt : Attempt) :
    s'.requireModifiable n' attempt = s.requireModifiable n attempt := by
  rw [requireModifiable, requireModifiable, h.subject, hSame.mayAll]

theorem destination_eq {w : Spot} {dest : PathArg} (hSame : Node.SameUpTo w n n')
    (hDest : s'.isDirectory (s.resolve dest) = s.isDirectory (s.resolve dest)) :
    s'.destination n' dest = s.destination n dest := by
  simp only [destination, h.resolve, hDest, hSame.name]

theorem symm : Unseen ps s' s := by
  have hCwd : s'.cwd = s.cwd := by simpa [emptied] using congrArg Session.cwd h.same
  exact ⟨h.wellFormed', h.wellFormed, hCwd ▸ h.canonical, h.closed.congr h.same, h.same.symm⟩

theorem requireReadable_eq (hn : s.lookup full = some n) (hn' : s'.lookup full = some n')
    (hSame : Node.SameUpTo (Spot.follow (some ps) (Path.split full)) n n') :
    s'.requireReadable (n'.walk full) = s.requireReadable (n.walk full) := by
  have hBars := h.bars.follow hn
  have hBars' := h.subject ▸ h.bars'.follow hn'
  rw [requireReadable_congr h.subject, ← requireReadable_emptied hBars', hSame, requireReadable_emptied hBars]

theorem complaint_eq {dest : String} (hDest : s'.isDirectory (s.resolve (some dest)) =
    s.isDirectory (s.resolve (some dest)) ∨ s.Plain source dest) :
    s'.complaint source dest = s.complaint source dest := by
  simp only [complaint, h.resolve]
  rcases hDest with hSame | ⟨hSlash, hUnsafe⟩
  · rw [hSame]
  · have hNever : (dest.toList.getLast? == some '/') = false := by simpa using hSlash
    simp only [hNever, Bool.false_and, Bool.false_eq_true, if_false, apply_ite Path.baseName, apply_ite Path.hasUnsafe,
      hUnsafe, ite_self]

theorem upshot_move_elsewhere {dest : String} (hElsewhere : ¬ps <+: Path.split (s.resolve (some dest))) :
    (move source (some dest)).upshot s' = (move source (some dest)).upshot s := by
  have hSame := h.isDirectory_eq (not_below_of_outside hElsewhere)
  unfold move
  rw [upshot_session_bind, upshot_session_bind]
  simp only [h.resolve]
  refine upshot_error_ite fun hRoot => upshot_bind_congr (h.reach_agree _ _) fun n n' hn _ hNode => ?_
  refine upshot_error_ite fun _ => ?_
  rw [h.destination_eq hNode hSame]
  refine upshot_bind_same fun ⟨directory, name⟩ hDest => ?_
  dsimp only
  by_cases hStays : (Path.join directory name == s.resolve source) = true
  · rw [if_pos hStays, if_pos hStays]
    rfl
  · rw [if_neg hStays, if_neg hStays]
    refine upshot_error_ite fun _ => upshot_error_ite fun _ => ?_
    have hSource := h.closed.not_below_of_reach h.wellFormed hn
    have hAbove := not_prefix_of_parent h.canonical (by simpa using hRoot) hSource
    have hInto := not_prefix_of_destination hElsewhere hDest
    refine upshot_bind_congr (h.parentNode_agree (not_below_of_outside hAbove)) fun parent parent' _ _ hParent => ?_
    refine upshot_bind_congr (h.reachDirectory_agree _ _) fun target target' _ _ hTarget => ?_
    rw [h.requireModifiable_eq hParent, h.requireModifiable_eq hTarget, hNode.name,
      hTarget.isOccupied (follow_ne_here hInto) hNode, hParent.isNone_child? (follow_ne_here hAbove)]
    refine upshot_bind_same fun _ _ => upshot_bind_same fun _ _ => ?_
    exact upshot_error_ite fun _ => upshot_error_ite fun _ => rfl

theorem upshot_copy_elsewhere {dest : String} (hElsewhere : ¬ps <+: Path.split (s.resolve (some dest)))
    (recursive : Bool) :
    (copy source (some dest) recursive).upshot s' = (copy source (some dest) recursive).upshot s := by
  have hSame := h.isDirectory_eq (not_below_of_outside hElsewhere)
  unfold copy
  rw [upshot_session_bind, upshot_session_bind]
  simp only [h.resolve]
  refine upshot_bind_congr (h.reach_agree _ _) fun n n' hn hn' hNode => ?_
  rw [hNode.isDir, h.requireReadable_eq (lookup_of_reach hn) (lookup_of_reach hn') hNode, h.destination_eq hNode hSame]
  refine upshot_error_ite fun _ => upshot_bind_same fun _ _ => upshot_bind_same fun ⟨directory, name⟩ hDest => ?_
  refine upshot_error_ite fun _ => upshot_error_ite fun _ => upshot_error_ite fun _ => ?_
  refine upshot_bind_congr (h.reachDirectory_agree _ _) fun target target' _ _ hTarget => ?_
  have hAway := follow_ne_here (not_prefix_of_destination hElsewhere hDest)
  rcases hTarget.child? hAway name with ⟨hNone', hNone⟩ | ⟨e, e', hEntry, hEntry', hSameEntry⟩
  · rw [hNone, hNone', h.requireModifiable_eq hTarget]
    exact upshot_bind_same fun _ _ => rfl
  · rw [hEntry, hEntry']
    dsimp only
    rw [hSameEntry.isDir, h.subject, hSameEntry.may]
    exact upshot_error_ite fun _ => upshot_bind_same fun _ _ => upshot_ite_error fun _ => rfl

theorem upshot_move_within {dest : String} (hWithin : ps <+: Path.split (s.resolve (some dest)))
    (hComplaint : s'.complaint source dest = s.complaint source dest) :
    (move source (some dest)).upshot s' = (move source (some dest)).upshot s := by
  by_cases hReady : s.resolve source ≠ "/" ∧ (∃ n, s.reach (s.resolve source) source = .ok n) ∧
      Path.isWithin (s.resolve (some dest)) (s.resolve source) = false
  · obtain ⟨hRoot, ⟨n, hn⟩, hOutside⟩ := hReady
    obtain ⟨n', hn', -⟩ := (h.reach_agree (s.resolve source) source).ok_of_ok hn
    have hEnd := h.closed.upshot_move h.wellFormed h.canonical hn hWithin hRoot hOutside
    rw [← h.resolve] at hn' hWithin hRoot
    rw [← h.resolve, ← h.resolve] at hOutside
    have hEnd' := h.symm.closed.upshot_move h.wellFormed' h.symm.canonical hn' hWithin hRoot hOutside
    rw [hEnd, hEnd', hComplaint]
  · -- neither run gets to the destination
    unfold move
    rw [upshot_session_bind, upshot_session_bind]
    simp only [h.resolve]
    refine upshot_error_ite fun hRoot => upshot_bind_congr (h.reach_agree _ _) fun n n' hn _ _ => ?_
    refine upshot_error_ite fun hOutside => ?_
    exact absurd ⟨by simpa using hRoot, ⟨n, hn⟩, by simpa using hOutside⟩ hReady

theorem upshot_copy_within {dest : String} {recursive : Bool} (hWithin : ps <+: Path.split (s.resolve (some dest)))
    (hComplaint : s'.complaint source dest = s.complaint source dest)
    (hBlocks : s'.Blocks ps source dest ↔ s.Blocks ps source dest)
    (hTakes : s'.Takes ps source dest ↔ s.Takes ps source dest) :
    (copy source (some dest) recursive).upshot s' = (copy source (some dest) recursive).upshot s := by
  by_cases hReady : ∃ n, s.reach (s.resolve source) source = .ok n ∧ (n.isDir && !recursive) = false ∧
      s.requireReadable (n.walk (s.resolve source)) = .ok ()
  · obtain ⟨n, hn, hRecursive, hReadable⟩ := hReady
    obtain ⟨n', hn', hNode⟩ := (h.reach_agree (s.resolve source) source).ok_of_ok hn
    have hEnd := h.closed.upshot_copy h.wellFormed h.canonical hn hWithin hRecursive hReadable
    rw [← h.requireReadable_eq (lookup_of_reach hn) (lookup_of_reach hn') hNode] at hReadable
    rw [← hNode.isDir] at hRecursive
    rw [← h.resolve] at hn' hWithin hReadable
    have hEnd' := h.symm.closed.upshot_copy h.wellFormed' h.symm.canonical hn' hWithin hRecursive hReadable
    exact hEnd.unique hEnd' hComplaint hBlocks hTakes
  · -- neither run gets to the destination
    unfold copy
    rw [upshot_session_bind, upshot_session_bind]
    simp only [h.resolve]
    refine upshot_bind_congr (h.reach_agree _ _) fun n n' hn hn' hNode => ?_
    rw [hNode.isDir, h.requireReadable_eq (lookup_of_reach hn) (lookup_of_reach hn') hNode]
    refine upshot_error_ite fun hRecursive => upshot_bind_same fun _ hReadable => ?_
    exact absurd ⟨n, hn, by simpa using hRecursive, hReadable⟩ hReady

theorem isDirectory_of_meets {dest : String} {e e' : Node} (hMeets : s.Meets ps source dest n e)
    (hMeets' : s'.Meets ps source dest n' e') :
    s'.isDirectory (s.resolve (some dest)) = s.isDirectory (s.resolve (some dest)) := by
  by_contra hDiffers
  have hBelow : Below ps (s.resolve (some dest)) := by
    by_contra hOutside
    exact hDiffers (h.isDirectory_eq hOutside)
  rw [← h.resolve] at hDiffers
  cases hDir : s.isDirectory (s.resolve (some dest)) with
  | true => exact hMeets.not_below hDir hBelow
  | false =>
    rw [h.resolve, hDir, Bool.not_eq_false, ← h.resolve] at hDiffers
    rw [← h.resolve] at hBelow
    exact hMeets'.not_below hDiffers hBelow

theorem answered_copy_within {dest : String} {recursive : Bool} (hWithin : ps <+: Path.split (s.resolve (some dest)))
    (hTakes : s'.Takes ps source dest ↔ s.Takes ps source dest)
    (hAnswered : (copy source (some dest) recursive).upshot s = .answered) :
    (copy source (some dest) recursive).upshot s' = .answered := by
  have hTaken := h.closed.takes_of_answered_copy h.wellFormed h.canonical hWithin hAnswered
  have hTaken' := hTakes.mpr hTaken
  obtain ⟨n, e, hMeets, -⟩ := id hTaken
  obtain ⟨n', e', hMeets', -⟩ := id hTaken'
  have hComplaint : s'.complaint source dest = s.complaint source dest :=
    h.complaint_eq (.inl (h.isDirectory_of_meets hMeets hMeets'))
  rw [← hAnswered]
  exact h.upshot_copy_within hWithin hComplaint (iff_of_false hTaken'.not_blocks hTaken.not_blocks) hTakes

end

end Unseen

/-- Which ways to move and to copy end alike, whatever lies below the directory at the place `ps`. -/
structure TransfersAlike (ps : List String) (s s' : Session) : Prop where
  moved source dest :
    (move source (some dest)).upshot s' = .answered ↔ (move source (some dest)).upshot s = .answered
  copied source dest recursive : (s'.Takes ps source dest ↔ s.Takes ps source dest) →
    ((copy source (some dest) recursive).upshot s' = .answered ↔
      (copy source (some dest) recursive).upshot s = .answered)
  move source dest :
    s'.isDirectory (s.resolve (some dest)) = s.isDirectory (s.resolve (some dest)) ∨ s.Plain source dest →
      (move source (some dest)).upshot s' = (move source (some dest)).upshot s
  copy source dest recursive :
    s'.isDirectory (s.resolve (some dest)) = s.isDirectory (s.resolve (some dest)) ∨ s.Plain source dest →
      (s'.Blocks ps source dest ↔ s.Blocks ps source dest) →
        (s'.Takes ps source dest ↔ s.Takes ps source dest) →
          (copy source (some dest) recursive).upshot s' = (copy source (some dest) recursive).upshot s

/-- What is moved or copied, and whereto, ends alike in both sessions, but for what a complaint about a destination
below the directory tells and for what a copy meets in it. -/
theorem Unseen.transfersAlike {ps : List String} {s s' : Session} (h : Unseen ps s s') : TransfersAlike ps s s' := by
  constructor
  · intro source dest
    by_cases hWithin : ps <+: Path.split (s.resolve (some dest))
    · have hWithin' : ps <+: Path.split (s'.resolve (some dest)) := by rwa [h.resolve]
      have hNever := h.closed.not_answered_move h.wellFormed h.canonical hWithin source
      have hNever' := h.symm.closed.not_answered_move h.wellFormed' h.symm.canonical hWithin' source
      exact iff_of_false hNever' hNever
    · rw [h.upshot_move_elsewhere hWithin]
  · intro source dest recursive hTakes
    by_cases hWithin : ps <+: Path.split (s.resolve (some dest))
    · have hWithin' : ps <+: Path.split (s'.resolve (some dest)) := by rwa [h.resolve]
      exact ⟨h.symm.answered_copy_within hWithin' hTakes.symm, h.answered_copy_within hWithin hTakes⟩
    · rw [h.upshot_copy_elsewhere hWithin]
  · intro source dest hDest
    by_cases hWithin : ps <+: Path.split (s.resolve (some dest))
    · exact h.upshot_move_within hWithin (h.complaint_eq hDest)
    · exact h.upshot_move_elsewhere hWithin
  · intro source dest recursive hDest hBlocks hTakes
    by_cases hWithin : ps <+: Path.split (s.resolve (some dest))
    · exact h.upshot_copy_within hWithin (h.complaint_eq hDest) hBlocks hTakes
    · exact h.upshot_copy_elsewhere hWithin recursive

/-- An entry of a closed directory could be missing. -/
theorem Closed.unseen_dropEntry {s : Session} {directory : String} (h : s.Closed (Path.split directory))
    (hTree : s.root.WellFormed) (hCwd : Path.isCanonical s.cwd = true) (name : String) :
    Unseen (Path.split directory) s (s.modifyAt directory (·.dropEntry name)) := by
  have hTree' : (s.modifyAt directory (·.dropEntry name)).root.WellFormed :=
    hTree.modify (Node.name_mapEntries _) (fun m hm => hm.dropEntry name) _
  exact ⟨hTree, hTree', hCwd, h, emptied_modifyAt s directory _⟩

/-- Nobody else can tell by a move or a copy whether `admin` has any notes. -/
theorem admin_home_transfersAlike : ∃ s s' : Session, Session.fresh? "user" 0.0 = some s ∧
    s' = s.modifyAt "/home/admin" (·.dropEntry "notes.txt") ∧ Unseen ["home", "admin"] s s' ∧
      (s.lookup "/home/admin/notes.txt").isSome = true ∧ (s'.lookup "/home/admin/notes.txt").isSome = false ∧
        s.Plain (some ".profile") "/home/admin/notes.txt" ∧ TransfersAlike ["home", "admin"] s s' ∧
          (move (some ".profile") (some "/home/admin/notes.txt")).upshot s' =
            (move (some ".profile") (some "/home/admin/notes.txt")).upshot s := by
  have hFacts : (Session.fresh? "user" 0.0).map (fun s => ((s.lookup "/home/admin/notes.txt").isSome,
      ((s.modifyAt "/home/admin" (·.dropEntry "notes.txt")).lookup "/home/admin/notes.txt").isSome,
      s.resolve (some ".profile"), s.resolve (some "/home/admin/notes.txt"))) =
        some (true, false, "/home/user/.profile", "/home/admin/notes.txt") := by
    decide +kernel
  have hPath : Path.split "/home/admin" = ["home", "admin"] := by decide +kernel
  obtain ⟨s, hFresh, hFacts⟩ := Option.map_eq_some_iff.mp hFacts
  simp only [Prod.mk.injEq] at hFacts
  obtain ⟨hThere, hGone, hSource, hDest⟩ := hFacts
  have hTree := (Reached.start hFresh).inv.sound.tree
  have hClosed : s.Closed (Path.split "/home/admin") := hPath ▸ closed_admin_home hFresh
  have hUnseen := hClosed.unseen_dropEntry hTree.wellFormed hTree.canonical "notes.txt"
  rw [hPath] at hUnseen
  have hPlain : s.Plain (some ".profile") "/home/admin/notes.txt" := by
    rw [Plain, hSource, hDest]
    decide +kernel
  have hAlike := hUnseen.transfersAlike
  exact ⟨s, _, hFresh, rfl, hUnseen, hThere, hGone, hPlain, hAlike, hAlike.move _ _ (.inr hPlain)⟩

/-- A copy onto a file in a directory that its owner has closed for himself is made if the file is there. -/
theorem not_copied_alike : ¬∀ (ps : List String) (s s' : Session) (source : PathArg) (dest : String)
    (recursive : Bool), Unseen ps s s' → ¬Below ps (s.resolve source) →
      (copy source (some dest) recursive).upshot s' = (copy source (some dest) recursive).upshot s := by
  intro hAll
  have hFacts : (Session.fresh? "user" 0.0).map (fun s =>
      let t := s.perform inClosedDirectory
      (t.resolve (some ".profile"),
        (t.root.get? ["home", "user", "d"]).map fun n => (n.isDir, (t.subject.may .execute n).toOption))) =
      some ("/home/user/.profile", some (true, some false)) := by
    decide +kernel
  have hRuns : (Session.fresh? "user" 0.0).map (fun s =>
      let t := s.perform inClosedDirectory
      ((copy (some ".profile") (some "d/f") false).upshot t,
        (copy (some ".profile") (some "d/f") false).upshot (t.modifyAt "/home/user/d" (·.dropEntry "f")))) =
      some (.answered, .refused .permissionDenied) := by
    decide +kernel
  have hPath : Path.split "/home/user/d" = ["home", "user", "d"] := by decide +kernel
  obtain ⟨s, hFresh, hFacts⟩ := Option.map_eq_some_iff.mp hFacts
  rw [hFresh, Option.map_some, Option.some.injEq] at hRuns
  simp only [Prod.mk.injEq] at hFacts hRuns
  obtain ⟨hSource, hClosed⟩ := hFacts
  obtain ⟨hMade, hDenied⟩ := hRuns
  obtain ⟨n, hn, hMay⟩ := Option.map_eq_some_iff.mp hClosed
  obtain ⟨hDir, hMay⟩ := Prod.mk.inj hMay
  have hTree := ((Reached.start hFresh).perform inClosedDirectory).inv.sound.tree
  have hClosed : (s.perform inClosedDirectory).Closed (Path.split "/home/user/d") := by
    rw [hPath]
    exact closed_of_may hn hDir (Result.toOption_eq_some_iff.mp hMay)
  have hUnseen := hClosed.unseen_dropEntry hTree.wellFormed hTree.canonical "f"
  have hOutside : ¬Below (Path.split "/home/user/d") ((s.perform inClosedDirectory).resolve (some ".profile")) := by
    rw [hSource]
    refine not_below_of_outside ?_
    decide +kernel
  have hSame := hAll _ _ _ (some ".profile") "d/f" false hUnseen hOutside
  rw [hMade, hDenied] at hSame
  cases hSame

end Session

end VirtualShell
