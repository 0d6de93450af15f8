import VirtualShell.Proofs.Search.Closed
import VirtualShell.Proofs.Session.Copying
import VirtualShell.Proofs.Session.Descent

/-!
# Destinations at a closed directory

Nothing is moved into a directory that the acting user may not search, or to a place below it, and nothing is copied
there but into a file that the directory has. What the refusal complains of depends on whether the destination is a
directory, which is looked up without a look at rights.
-/
namespace VirtualShell.Session
set_option autoImplicit false

open Update

def Below (ps : List String) (path : String) : Prop := ∃ q rest, Path.split path = ps ++ q :: rest

/-- What is wrong with a destination at or below a directory that may not be searched. -/
def complaint (s : Session) (source : PathArg) (dest : String) : ErrorKind :=
  let full := s.resolve (some dest)
  if dest.toList.getLast? == some '/' && !s.isDirectory full then .notADirectory
  else if Path.hasUnsafe (Path.baseName (if s.isDirectory full then s.resolve source else full)) then .invalidPath
  else .permissionDenied

/-- The spelling of the destination is the same for a directory as for anything else. -/
def Plain (s : Session) (source : PathArg) (dest : String) : Prop :=
  dest.toList.getLast? ≠ some '/' ∧
    Path.hasUnsafe (Path.baseName (s.resolve source)) = Path.hasUnsafe (Path.baseName (s.resolve (some dest)))

/-- The copy of `n` would take the place of the entry `e` of the directory at `ps`, and the way there is open. -/
def Meets (s : Session) (ps : List String) (source : PathArg) (dest : String) (n e : Node) : Prop :=
  s.Searchable ps ∧ s.lookup (s.resolve source) = some n ∧ ∃ directory name,
    s.destination n (some dest) = .ok (directory, name) ∧ Path.split directory = ps ∧
      s.root.get? (ps ++ [name]) = some e

/-- An entry of the directory at `ps` is in the way of the copy. -/
def Blocks (s : Session) (ps : List String) (source : PathArg) (dest : String) : Prop :=
  ∃ n e, s.Meets ps source dest n e ∧ (e.isDir || n.isDir) = true

def Takes (s : Session) (ps : List String) (source : PathArg) (dest : String) : Prop :=
  ∃ n e, s.Meets ps source dest n e ∧ (e.isDir || n.isDir) = false ∧ s.subject.may .write e = .ok true

/-- How a copy to a closed directory, or to a place below it, ends. -/
structure Receives (s : Session) (ps : List String) (source : PathArg) (dest : String) (v : Upshot) : Prop where
  refused : s.complaint source dest ≠ .permissionDenied ∨ ¬s.Blocks ps source dest ∧ ¬s.Takes ps source dest →
    v = .refused (s.complaint source dest)
  blocked : s.complaint source dest = .permissionDenied → s.Blocks ps source dest → v = .refused .conflict
  taken : s.complaint source dest = .permissionDenied → s.Takes ps source dest → v = .answered

section

variable {s : Session} {ps ds : List String} {n m e : Node} {source path : PathArg} {dest name : String}
  {recursive : Bool}

theorem requireModifiable_or (h : n.info.Valid) (s : Session) (attempt : Attempt) :
    s.requireModifiable n attempt = .ok () ∨
      s.requireModifiable n attempt = refuse (.obstructed attempt .denied) := by
  rw [requireModifiable, Subject.mayAll_eq h, Result.ok_bind]
  split
  · exact .inl rfl
  · exact .inr rfl

theorem requireModifiable_closed (h : n.info.Valid) (hClosed : s.subject.may .execute n ≠ .ok true)
    (attempt : Attempt) : s.requireModifiable n attempt = refuse (.obstructed attempt .denied) :=
  (requireModifiable_or h s attempt).resolve_left fun hModify => hClosed (may_of_requireModifiable hModify)

/-- Neither the directory nor what lies below it is a part of the source. -/
theorem not_prefix_of_apart {full : String} (hSource : ¬Below ps full) (hApart : ¬Path.split full <+: ps)
    {qs : List String} (hqs : ps <+: qs) : ¬Path.split full <+: qs := by
  intro hPrefix
  rcases List.prefix_or_prefix_of_prefix hPrefix hqs with hAbove | ⟨rest, hRest⟩
  · exact hApart hAbove
  · cases rest with
    | nil =>
      rw [List.append_nil] at hRest
      exact hApart (hRest ▸ List.prefix_rfl)
    | cons q rest => exact hSource ⟨q, rest, hRest.symm⟩

theorem Closed.isDir_root (h : s.Closed ps) : s.root.isDir = true := by
  obtain ⟨i, es, hGet, -⟩ := h
  cases ps with
  | nil =>
    rw [Option.some.inj hGet]
    rfl
  | cons p ps => exact Node.isDir_of_get? hGet (List.cons_ne_nil p ps)

theorem not_below_of_outside {full : String} (h : ¬ps <+: Path.split full) : ¬Below ps full := by
  rintro ⟨q, rest, hBelow⟩
  exact h ⟨q :: rest, hBelow.symm⟩

/-- A destination that is neither the directory nor below it leads into another one. -/
theorem not_prefix_of_destination {directory : String} (h : ¬ps <+: Path.split (s.resolve (some dest)))
    (hDest : s.destination n (some dest) = .ok (directory, name)) : ¬ps <+: Path.split directory := by
  simp only [destination] at hDest
  split at hDest
  · cases hDest
  · split at hDest
    · cases hDest
      exact h
    · cases hDest
      rw [Path.split_parentOf]
      exact fun hParent => h (hParent.trans (List.dropLast_prefix _))

/-- What does not lie below the directory is neither in it nor below it. -/
theorem not_prefix_of_parent (hCwd : Path.isCanonical s.cwd = true) (hRoot : s.resolve source ≠ "/")
    (hSource : ¬Below ps (s.resolve source)) : ¬ps <+: Path.split (Path.parentOf (s.resolve source)) := by
  rintro ⟨rest, hParent⟩
  have hSplit := split_resolve hCwd hRoot
  obtain ⟨q, more, hMore⟩ := List.exists_cons_of_ne_nil (List.concat_ne_nil (Path.baseName (s.resolve source)) rest)
  rw [← hParent, List.append_assoc, hMore] at hSplit
  exact hSource ⟨q, more, hSplit⟩

theorem follow_ne_here {qs : List String} (h : ¬ps <+: qs) : Spot.follow (some ps) qs ≠ some [] := by
  intro hHere
  have hSame := Option.some.inj (Spot.follow_eq_some.mp hHere)
  rw [hSame, List.append_nil] at h
  exact h List.prefix_rfl

/-- Where a destination at or below the directory leads. -/
theorem Closed.destination_within (h : s.Closed ps) (hCwd : Path.isCanonical s.cwd = true)
    (hRoot : s.resolve source ≠ "/") (hn : s.reach (s.resolve source) source = .ok n)
    (hWithin : ps <+: Path.split (s.resolve (some dest))) :
    (s.complaint source dest = .notADirectory ∧
      s.destination n (some dest) = refuse (.obstructed (.reachInto dest) .notADirectory)) ∨
    ∃ ds name, Path.AreParts (ds ++ [name]) ∧ ps <+: ds ∧
      s.destination n (some dest) = .ok (Path.ofParts ds, name) ∧
      s.complaint source dest = if Path.hasUnsafe name then .invalidPath else .permissionDenied := by
  have hFull : Path.isCanonical (s.resolve (some dest)) = true := Path.isCanonical_resolve s.home _ hCwd
  simp only [complaint, destination]
  by_cases hSlash : (dest.toList.getLast? == some '/' && !s.isDirectory (s.resolve (some dest))) = true
  · left
    rw [if_pos hSlash, if_pos hSlash]
    exact ⟨rfl, rfl⟩
  · right
    rw [if_neg hSlash, if_neg hSlash]
    cases hDir : s.isDirectory (s.resolve (some dest)) with
    | true =>
      -- the node goes into the destination, under its own name
      obtain ⟨ss, hss, hSource, -⟩ := source_parts hCwd hRoot hn
      obtain ⟨ds, hds, hDest⟩ := Path.isCanonical_iff.mp hFull
      rw [hDest, Path.split_ofParts hds] at hWithin
      refine ⟨ds, n.name, hds.concat (hss.right _ (List.mem_singleton_self _)), hWithin, ?_, ?_⟩
      · rw [hDest]
        rfl
      · rw [hSource, if_pos rfl, Path.baseName_ofParts hss]
    | false =>
      -- the node gets the last part of the destination as its name
      have hne : s.resolve (some dest) ≠ "/" := by
        intro hTop
        rw [hTop] at hDir
        cases hDir.symm.trans h.isDir_root
      obtain ⟨ds, name, hds, hDest⟩ := Path.exists_concat_of_ne_root hFull hne
      have hParent : ps <+: ds := by
        rw [hDest, Path.split_ofParts hds] at hWithin
        refine (List.prefix_concat_iff.mp hWithin).resolve_left fun hHere => ?_
        obtain ⟨i, es, hGet, -⟩ := h
        rw [hDest, isDirectory_ofParts hds, ← hHere, Node.isDirAt, hGet] at hDir
        cases hDir
      refine ⟨ds, name, hds, hParent, ?_, ?_⟩
      · rw [hDest, Path.parentOf_ofParts hds, Path.baseName_ofParts hds, List.dropLast_concat]
        rfl
      · rw [hDest, if_neg Bool.false_ne_true, Path.baseName_ofParts hds]

/-- Nothing is put below the directory, and only the directory itself may be reached. -/
theorem Closed.reachDirectory_within (h : s.Closed ps) (hTree : s.root.WellFormed) (hds : Path.AreParts ds)
    (hPlace : ps <+: ds) (path : PathArg) :
    (s.reachDirectory (Path.ofParts ds) path =
        refuse (.obstructed (.reach (path.shown (Path.ofParts ds))) .denied) ∧ (ds = ps → ¬s.Searchable ps)) ∨
      ds = ps ∧ s.Searchable ps ∧ ∃ target, s.root.get? ps = some target ∧
        s.reachDirectory (Path.ofParts ds) path = .ok target ∧ s.subject.may .execute target ≠ .ok true := by
  obtain ⟨i, es, hGet, hClosed⟩ := h
  obtain ⟨rest, rfl⟩ := hPlace
  unfold reachDirectory
  cases rest with
  | nil =>
    rw [List.append_nil] at hds ⊢
    rw [reach, Path.split_ofParts hds]
    obtain hReach | hReach : s.subject.reach (path.shown (Path.ofParts ps)) s.root ps = .ok (.dir i es) ∨ _ :=
      Subject.reach_of_get? hTree hGet
    · right
      refine ⟨rfl, (Subject.reach_eq_ok_iff.mp hReach).2, _, hGet, ?_, hClosed⟩
      rw [hReach]
      rfl
    · left
      refine ⟨by rw [hReach]; rfl, fun _ hSearch => ?_⟩
      cases hReach.symm.trans (Subject.reach_eq_ok_iff.mpr ⟨hGet, hSearch⟩)
  | cons q rest =>
    left
    rw [reach, Path.split_ofParts hds, Subject.reach_below hTree hGet rfl hClosed]
    exact ⟨rfl, fun hHere => by simp at hHere⟩

/-- Where the copy goes that meets an entry. -/
theorem Meets.landing {directory : String} (h : s.Meets ps source dest m e)
    (hDest : s.destination n (some dest) = .ok (directory, name)) (hn : s.lookup (s.resolve source) = some n) :
    m = n ∧ Path.split directory = ps ∧ s.root.get? (ps ++ [name]) = some e := by
  obtain ⟨-, hm, directory', name', hDest', hHere, hEntry⟩ := h
  cases hn.symm.trans hm
  cases hDest.symm.trans hDest'
  exact ⟨rfl, hHere, hEntry⟩

theorem Meets.unique {n' e' : Node} (h : s.Meets ps source dest n e) (h' : s.Meets ps source dest n' e') :
    n' = n ∧ e' = e := by
  obtain ⟨-, hn, directory, name, hDest, -, hEntry⟩ := h
  obtain ⟨rfl, -, hEntry'⟩ := h'.landing hDest hn
  cases hEntry.symm.trans hEntry'
  exact ⟨rfl, rfl⟩

/-- Only a copy into the directory itself meets an entry under the name of the source. -/
theorem Meets.not_below (h : s.Meets ps source dest n e) (hDir : s.isDirectory (s.resolve (some dest)) = true) :
    ¬Below ps (s.resolve (some dest)) := by
  obtain ⟨-, -, directory, name, hDest, hHere, -⟩ := h
  simp only [destination, hDir, Bool.not_true, Bool.and_false, Bool.false_eq_true, if_false, if_true] at hDest
  cases hDest
  rintro ⟨q, rest, hBelow⟩
  rw [hHere] at hBelow
  simp at hBelow

theorem Takes.not_blocks (h : s.Takes ps source dest) : ¬s.Blocks ps source dest := by
  rintro ⟨n, e, hMeets, hKind⟩
  obtain ⟨n', e', hMeets', hFiles, -⟩ := h
  obtain ⟨rfl, rfl⟩ := hMeets.unique hMeets'
  cases hKind.symm.trans hFiles

theorem receives_of_complaint {kind : ErrorKind} (hComplaint : s.complaint source dest = kind)
    (hKind : kind ≠ .permissionDenied) : s.Receives ps source dest (.refused kind) := by
  subst hComplaint
  exact ⟨fun _ => rfl, fun hDenied => absurd hDenied hKind, fun hDenied => absurd hDenied hKind⟩

theorem receives_of_not_meets {kind : ErrorKind} (hComplaint : s.complaint source dest = kind)
    (h : ∀ n e, ¬s.Meets ps source dest n e) : s.Receives ps source dest (.refused kind) := by
  subst hComplaint
  refine ⟨fun _ => rfl, ?_, ?_⟩
  · rintro - ⟨n, e, hMeets, -⟩
    exact absurd hMeets (h n e)
  · rintro - ⟨n, e, hMeets, -⟩
    exact absurd hMeets (h n e)

/-- An entry that is met is in the way, or a file that may be written, or none of both. -/
theorem receives_of_meets {may : Bool} (h : s.Meets ps source dest n e)
    (hComplaint : s.complaint source dest = .permissionDenied) (hMay : s.subject.may .write e = .ok may) :
    s.Receives ps source dest (if (e.isDir || n.isDir) = true then .refused .conflict
      else if may = true then .answered else .refused .permissionDenied) := by
  have hBlocks : s.Blocks ps source dest ↔ (e.isDir || n.isDir) = true := by
    constructor
    · rintro ⟨n', e', hMeets, hKind⟩
      obtain ⟨rfl, rfl⟩ := h.unique hMeets
      exact hKind
    · exact fun hKind => ⟨n, e, h, hKind⟩
  have hTakes : s.Takes ps source dest ↔ (e.isDir || n.isDir) = false ∧ may = true := by
    constructor
    · rintro ⟨n', e', hMeets, hKind, hWrite⟩
      obtain ⟨rfl, rfl⟩ := h.unique hMeets
      exact ⟨hKind, Except.ok.inj (hMay.symm.trans hWrite)⟩
    · rintro ⟨hKind, rfl⟩
      exact ⟨n, e, h, hKind, hMay⟩
  constructor
  · rw [hBlocks, hTakes, hComplaint]
    cases e.isDir || n.isDir <;> cases may <;> simp
  · rw [hBlocks]
    exact fun _ hKind => if_pos hKind
  · rw [hTakes]
    rintro - ⟨hKind, hMay⟩
    rw [hKind, if_neg Bool.false_ne_true, if_pos hMay]

/-- The upshot depends on nothing but the complaint and what the copy meets. -/
theorem Receives.unique {s' : Session} {v v' : Upshot} (h : s.Receives ps source dest v)
    (h' : s'.Receives ps source dest v') (hComplaint : s'.complaint source dest = s.complaint source dest)
    (hBlocks : s'.Blocks ps source dest ↔ s.Blocks ps source dest)
    (hTakes : s'.Takes ps source dest ↔ s.Takes ps source dest) : v' = v := by
  by_cases hRefused : s.complaint source dest ≠ .permissionDenied ∨
      ¬s.Blocks ps source dest ∧ ¬s.Takes ps source dest
  · rw [h.refused hRefused, h'.refused (by rwa [hComplaint, hBlocks, hTakes]), hComplaint]
  · obtain ⟨hDenied, hMet⟩ := not_or.mp hRefused
    have hDenied : s.complaint source dest = .permissionDenied := not_not.mp hDenied
    have hDenied' : s'.complaint source dest = .permissionDenied := hComplaint.trans hDenied
    by_cases hBlocked : s.Blocks ps source dest
    · rw [h.blocked hDenied hBlocked, h'.blocked hDenied' (hBlocks.mpr hBlocked)]
    · have hTaken : s.Takes ps source dest := not_not.mp fun hNone => hMet ⟨hBlocked, hNone⟩
      rw [h.taken hDenied hTaken, h'.taken hDenied' (hTakes.mpr hTaken)]

theorem Closed.not_below_of_reach {full : String} (h : s.Closed ps) (hTree : s.root.WellFormed)
    (hn : s.reach full path = .ok n) : ¬Below ps full := by
  rintro ⟨q, rest, hBelow⟩
  obtain ⟨i, es, hGet, hClosed⟩ := h
  rw [reach, hBelow, Subject.reach_below hTree hGet rfl hClosed] at hn
  cases hn

theorem Closed.not_prefix_of_readable (h : s.Closed ps) (hn : s.lookup (s.resolve source) = some n)
    (hReadable : s.requireReadable (n.walk (s.resolve source)) = .ok ()) : ¬Path.split (s.resolve source) <+: ps := by
  rintro ⟨rest, rfl⟩
  obtain ⟨i, es, hGet, hClosed⟩ := h
  rw [Node.get?_append] at hGet
  obtain ⟨k, hk, hGet⟩ := Option.bind_eq_some_iff.mp hGet
  cases hn.symm.trans hk
  exact hClosed ((readable_below hReadable hGet).2 rfl)

/-- What was reached and is not the root is an entry of a directory. -/
theorem exists_parentNode (hCwd : Path.isCanonical s.cwd = true) (hRoot : s.resolve source ≠ "/")
    (hn : s.reach (s.resolve source) source = .ok n) : ∃ parent, s.parentNode (s.resolve source) = .ok parent := by
  obtain ⟨ss, hss, hSource, hNode⟩ := source_parts hCwd hRoot hn
  rw [Node.get?_concat] at hNode
  obtain ⟨parent, hParent, -⟩ := Option.bind_eq_some_iff.mp hNode
  refine ⟨parent, parentNode_eq_ok_iff.mpr ?_⟩
  rw [hSource, Path.parentOf_ofParts hss, List.dropLast_concat, lookup_ofParts hss.left, hParent]

theorem ne_source_of_elsewhere {full : String} (hds : Path.AreParts ds) (hElsewhere : ¬Path.split full <+: ds) :
    ¬(Path.ofParts ds == full) = true := by
  intro hSame
  rw [← eq_of_beq hSame, Path.split_ofParts hds] at hElsewhere
  exact hElsewhere List.prefix_rfl

theorem not_isWithin_of_elsewhere {full : String} (hFull : Path.isCanonical full = true) (hds : Path.AreParts ds)
    (hElsewhere : ¬Path.split full <+: ds) : ¬Path.isWithin (Path.ofParts ds) full = true := by
  intro hInside
  have hPrefix := (Path.isWithin_iff_split (Path.isCanonical_ofParts hds) hFull).mp hInside
  rw [Path.split_ofParts hds] at hPrefix
  exact hElsewhere hPrefix

theorem ne_root_of_apart (hApart : ¬Path.split (s.resolve source) <+: ps) : s.resolve source ≠ "/" := by
  intro hTop
  rw [hTop] at hApart
  exact hApart List.nil_prefix

section

variable (hn : s.reach (s.resolve source) source = .ok n) (hRecursive : (n.isDir && !recursive) = false)
  (hReadable : s.requireReadable (n.walk (s.resolve source)) = .ok ())

include hn hRecursive hReadable

theorem upshot_copy_of_refused {fault : Fault} (hDest : s.destination n (some dest) = .error fault) :
    (copy source (some dest) recursive).upshot s = .ofFault fault := by
  unfold copy
  rw [upshot_session_bind]
  dsimp only
  rw [upshot_bind_ok hn, if_neg (by simp [hRecursive]), upshot_bind_ok hReadable, upshot_bind_error hDest]

/-- How a copy ends that goes neither onto the source nor into it. -/
theorem upshot_copy_of_destination (hCwd : Path.isCanonical s.cwd = true)
    (hDest : s.destination n (some dest) = .ok (Path.ofParts ds, name)) (hds : Path.AreParts (ds ++ [name]))
    (hElsewhere : ¬Path.split (s.resolve source) <+: ds ++ [name]) :
    (copy source (some dest) recursive).upshot s =
      if Path.hasUnsafe name = true then .refused .invalidPath
      else match s.reachDirectory (Path.ofParts ds) (some dest) with
        | .error fault => .ofFault fault
        | .ok target =>
          match target.child? name with
          | some e =>
            if (e.isDir || n.isDir) = true then .refused .conflict
            else match s.subject.may .write e with
              | .ok may => if may = true then .answered else .refused .permissionDenied
              | .error fault => .ofFault fault
          | none =>
            match s.requireModifiable target (.create (PathArg.text (some dest))) with
            | .ok _ => .answered
            | .error fault => .ofFault fault := by
  have hCanonical : Path.isCanonical (s.resolve source) = true := Path.isCanonical_resolve s.home source hCwd
  have hOutside := not_isWithin_of_elsewhere hCanonical hds hElsewhere
  unfold copy
  rw [upshot_session_bind]
  dsimp only
  rw [upshot_bind_ok hn, if_neg (by simp [hRecursive]), upshot_bind_ok hReadable, upshot_bind_ok hDest]
  dsimp only
  rw [Path.join_ofParts hds.left, if_neg (by simp [hOutside]), if_neg (ne_source_of_elsewhere hds hElsewhere)]
  split
  · rfl
  · cases s.reachDirectory (Path.ofParts ds) (some dest) with
    | error fault => rfl
    | ok target =>
      rw [upshot_bind_ok rfl]
      dsimp only
      cases target.child? name with
      | none => cases s.requireModifiable target (.create (PathArg.text (some dest))) <;> rfl
      | some e =>
        dsimp only
        split
        · rfl
        · cases s.subject.may .write e with
          | error fault => rfl
          | ok may => cases may <;> rfl

end

section

variable (h : s.Closed ps) (hTree : s.root.WellFormed) (hCwd : Path.isCanonical s.cwd = true)
  (hn : s.reach (s.resolve source) source = .ok n) (hWithin : ps <+: Path.split (s.resolve (some dest)))

include h hTree hCwd hn hWithin

/-- Nothing is moved to the directory or below it. -/
theorem Closed.upshot_move (hRoot : s.resolve source ≠ "/")
    (hOutside : Path.isWithin (s.resolve (some dest)) (s.resolve source) = false) :
    (move source (some dest)).upshot s = .refused (s.complaint source dest) := by
  have hCanonical : Path.isCanonical (s.resolve source) = true := Path.isCanonical_resolve s.home source hCwd
  have hApart : ¬Path.split (s.resolve source) <+: ps := by
    intro hAbove
    have hInside := (Path.isWithin_iff_split (Path.isCanonical_resolve s.home _ hCwd) hCanonical).mpr
      (hAbove.trans hWithin)
    cases hOutside.symm.trans hInside
  have hSource := h.not_below_of_reach hTree hn
  unfold move
  rw [upshot_session_bind]
  dsimp only
  rw [if_neg (by simpa using hRoot), upshot_bind_ok hn, if_neg (by simp [hOutside])]
  rcases h.destination_within hCwd hRoot hn hWithin with
    ⟨hComplaint, hDest⟩ | ⟨ds, name, hds, hPlace, hDest, hComplaint⟩
  · rw [upshot_bind_error hDest, hComplaint]
    rfl
  · have hElsewhere := not_prefix_of_apart hSource hApart (hPlace.trans (List.prefix_append ds [name]))
    rw [upshot_bind_ok hDest]
    dsimp only
    rw [Path.join_ofParts hds.left, if_neg (ne_source_of_elsewhere hds hElsewhere),
      if_neg (not_isWithin_of_elsewhere hCanonical hds hElsewhere)]
    cases hUnsafe : Path.hasUnsafe name with
    | true =>
      rw [if_pos rfl, hComplaint, if_pos hUnsafe]
      rfl
    | false =>
      rw [if_neg Bool.false_ne_true, hComplaint, hUnsafe, if_neg Bool.false_ne_true]
      obtain ⟨parent, hParent⟩ := exists_parentNode hCwd hRoot hn
      have hValid := (hTree.get? (parentNode_eq_ok_iff.mp hParent)).info_valid
      rw [upshot_bind_ok hParent]
      rcases h.reachDirectory_within hTree hds.left hPlace (some dest) with
        ⟨hTarget, -⟩ | ⟨-, -, target, hGet, hTarget, hClosed⟩
      · rw [upshot_bind_error hTarget]
        rfl
      · rw [upshot_bind_ok hTarget]
        rcases requireModifiable_or hValid s (.move source.text) with hTake | hTake
        · have hPut := requireModifiable_closed (hTree.get? hGet).info_valid hClosed
            (.moveTo source.text dest)
          rw [upshot_bind_ok hTake]
          exact upshot_bind_error hPut
        · rw [upshot_bind_error hTake]
          rfl

omit hn in
theorem Closed.not_answered_move (source : PathArg) : (move source (some dest)).upshot s ≠ .answered := by
  intro hAnswered
  obtain ⟨final, t, hRun⟩ := upshot_eq_answered_iff.mp hAnswered
  obtain ⟨hRoot, n, -, -, hn, hOutside, -⟩ := (move_ends s source (some dest)).answer final t hRun
  cases (h.upshot_move hTree hCwd hn hWithin hRoot hOutside).symm.trans hAnswered

/-- A copy may still pour into a file that the directory has, or be told that there is an entry. -/
theorem Closed.upshot_copy (hRecursive : (n.isDir && !recursive) = false)
    (hReadable : s.requireReadable (n.walk (s.resolve source)) = .ok ()) :
    s.Receives ps source dest ((copy source (some dest) recursive).upshot s) := by
  have hNode := lookup_of_reach hn
  have hApart := h.not_prefix_of_readable hNode hReadable
  rcases h.destination_within hCwd (ne_root_of_apart hApart) hn hWithin with
    ⟨hComplaint, hDest⟩ | ⟨ds, name, hds, hPlace, hDest, hComplaint⟩
  · have hReceives : s.Receives ps source dest (.refused .notADirectory) :=
      receives_of_complaint hComplaint (by decide)
    rwa [upshot_copy_of_refused hn hRecursive hReadable hDest]
  · have hElsewhere := not_prefix_of_apart (h.not_below_of_reach hTree hn) hApart
      (hPlace.trans (List.prefix_append ds [name]))
    rw [upshot_copy_of_destination hn hRecursive hReadable hCwd hDest hds hElsewhere]
    cases hUnsafe : Path.hasUnsafe name with
    | true =>
      rw [hUnsafe, if_pos rfl] at hComplaint
      exact receives_of_complaint hComplaint (by decide)
    | false =>
      rw [hUnsafe, if_neg Bool.false_ne_true] at hComplaint
      rw [if_neg Bool.false_ne_true]
      rcases h.reachDirectory_within hTree hds.left hPlace (some dest) with
        ⟨hTarget, hBarred⟩ | ⟨rfl, hSearch, target, hGet, hTarget, hClosed⟩
      · rw [hTarget]
        refine receives_of_not_meets hComplaint fun m e hMeets => ?_
        obtain ⟨-, hHere, -⟩ := hMeets.landing hDest hNode
        rw [Path.split_ofParts hds.left] at hHere
        exact hBarred hHere hMeets.1
      · have hEntry : s.root.get? (ds ++ [name]) = target.child? name := by
          rw [Node.get?_concat, hGet, Option.bind_some]
        rw [hTarget]
        dsimp only
        cases hChild : target.child? name with
        | none =>
          dsimp only
          rw [requireModifiable_closed (hTree.get? hGet).info_valid hClosed]
          refine receives_of_not_meets hComplaint fun m e hMeets => ?_
          obtain ⟨-, -, hMet⟩ := hMeets.landing hDest hNode
          cases (hEntry.symm.trans hMet).symm.trans hChild
        | some e =>
          have hMeets : s.Meets ds source dest n e :=
            ⟨hSearch, hNode, _, _, hDest, Path.split_ofParts hds.left, hEntry.trans hChild⟩
          have hMay : s.subject.may .write e = .ok _ := Subject.may_eq (hTree.get? (hEntry.trans hChild)).info_valid
          have hReceives := receives_of_meets hMeets hComplaint hMay
          dsimp only
          rwa [hMay]

omit hn in
theorem Closed.takes_of_answered_copy
    (hAnswered : (copy source (some dest) recursive).upshot s = .answered) : s.Takes ps source dest := by
  obtain ⟨final, t, hRun⟩ := upshot_eq_answered_iff.mp hAnswered
  obtain ⟨n, -, -, hn, hRecursive, hReadable, -⟩ := (copy_ends s source (some dest) recursive).answer final t hRun
  have hOmitted : (n.isDir && !recursive) = false := by
    cases hDir : n.isDir with
    | true => rw [hRecursive hDir]; rfl
    | false => rfl
  have hReceives := h.upshot_copy hTree hCwd hn hWithin hOmitted hReadable
  rw [hAnswered] at hReceives
  by_contra hNone
  by_cases hBlocked : s.complaint source dest = .permissionDenied ∧ s.Blocks ps source dest
  · cases hReceives.blocked hBlocked.1 hBlocked.2
  · cases hReceives.refused (by tauto)

end

end

end VirtualShell.Session
