import VirtualShell.Proofs.Session.Removal

/-!
# Relocation

A move takes a node with all that it holds to another place, and nothing else happens to the tree: what was at and below
the old place is at and below the new one, the old place is empty, and a session that was inside goes with the node.
No node is moved into itself.
-/
namespace VirtualShell.Session
set_option autoImplicit false

open Update

/-- `t` is the session `s` after the node at `source` was moved to `final`. -/
structure Relocated (s : Session) (source final : String) (t : Session) : Prop where
  canonical : Path.isCanonical final = true
  tree : Node.Moved s.now (Path.split source) (Path.split final) (Path.baseName final) s.root t.root
  replaced : s.root.get? (Path.split final) = none ∨ ∃ i c j d,
    s.root.get? (Path.split final) = some (.file i c) ∧ s.root.get? (Path.split source) = some (.file j d)
  inside : ∀ rest, Path.split s.cwd = Path.split source ++ rest → t.cwd = Path.ofParts (Path.split final ++ rest)
  outside : ¬Path.split source <+: Path.split s.cwd → t.cwd = s.cwd
  identity : SameIdentity s t

variable {s : Session} {source dest : PathArg} {n : Node} {directory name : String}

theorem Orderly.move_parts (h : s.Orderly) (hRoot : s.resolve source ≠ "/")
    (hn : s.reach (s.resolve source) source = .ok n) (hDest : s.destination n dest = .ok (directory, name)) :
    ∃ ss ds, Path.AreParts (ss ++ [n.name]) ∧ s.resolve source = Path.ofParts (ss ++ [n.name]) ∧
      s.root.get? (ss ++ [n.name]) = some n ∧ Path.AreParts (ds ++ [name]) ∧ directory = Path.ofParts ds := by
  obtain ⟨ss, hss, hSource, hNode⟩ := source_parts h.canonical hRoot hn
  have hTop := Node.isDir_of_get? hNode (List.concat_ne_nil n.name ss)
  obtain ⟨ds, hds, hDirectory⟩ :=
    destination_parts h.canonical hTop (hss.right _ (List.mem_singleton_self _)) hDest
  exact ⟨ss, ds, hss, hSource, hNode, hds, hDirectory⟩

theorem Orderly.isCanonical_final (h : s.Orderly) (hRoot : s.resolve source ≠ "/")
    (hn : s.reach (s.resolve source) source = .ok n) (hDest : s.destination n dest = .ok (directory, name)) :
    Path.isCanonical (Path.join directory name) = true := by
  obtain ⟨-, ds, -, -, -, hds, rfl⟩ := h.move_parts hRoot hn hDest
  rw [Path.join_ofParts hds.left]
  exact Path.isCanonical_ofParts hds

section

variable {ss ds : List String} (hss : Path.AreParts (ss ++ [n.name])) (hds : Path.AreParts (ds ++ [name]))

include hss hds

theorem root_moved : (s.moved (Path.ofParts (ss ++ [n.name])) n (Path.ofParts ds) name).root =
    (s.root.modify (fun m => (m.dropEntry n.name).touch s.now) ss).modify
      (fun m => (m.putEntry (n.rename name)).touch s.now) ds := by
  rw [moved, root_follow, Path.parentOf_ofParts hss, List.dropLast_concat, root_addEntry _ hds.left,
    root_removeEntry s hss.left, now_removeEntry]

theorem cwd_moved_inside {rest : List String} (hParts : Path.AreParts (ss ++ [n.name] ++ rest))
    (hCwd : s.cwd = Path.ofParts (ss ++ [n.name] ++ rest)) :
    (s.moved (Path.ofParts (ss ++ [n.name])) n (Path.ofParts ds) name).cwd = Path.ofParts (ds ++ [name] ++ rest) := by
  have hWithin : Path.isWithin s.cwd (Path.ofParts (ss ++ [n.name])) = true := by
    rw [hCwd]
    exact (Path.isWithin_iff hParts hss).mpr (List.prefix_append _ rest)
  -- the text of the old path is cut off, and what is left is hung below the new one
  rw [moved, follow, cwd_addEntry, cwd_removeEntry, if_pos hWithin, hCwd, Path.join_ofParts hds.left]
  exact Path.ofParts_append_drop (List.concat_ne_nil name ds) (List.concat_ne_nil n.name ss)

omit hss hds in
theorem cwd_moved_outside {full : String} (h : Path.isWithin s.cwd full = false) :
    (s.moved full n directory name).cwd = s.cwd := by
  rw [moved, follow, cwd_addEntry, cwd_removeEntry, if_neg (by simp [h]), cwd_addEntry, cwd_removeEntry]

end

theorem Orderly.relocated_moved (h : s.Orderly) {target : Node} (hRoot : s.resolve source ≠ "/")
    (hn : s.reach (s.resolve source) source = .ok n) (hDest : s.destination n dest = .ok (directory, name))
    (hOutside : Path.isWithin (Path.join directory name) (s.resolve source) = false)
    (hTarget : s.reachDirectory directory dest = .ok target) (hFree : isOccupied target name n = false) :
    s.Relocated (s.resolve source) (Path.join directory name) (s.moved (s.resolve source) n directory name) := by
  obtain ⟨ss, ds, hss, hSource, hNode, hds, rfl⟩ := h.move_parts hRoot hn hDest
  obtain ⟨hLookup, hDir⟩ := lookup_of_reachDirectory hTarget
  rw [lookup_ofParts hds.left] at hLookup
  have hKind : s.root.kindAt ds = some .dir := Node.kindAt_of_get? hLookup hDir
  have hFree := kindAt_of_not_occupied hLookup hFree
  obtain ⟨qs, hqs, hCwd⟩ := Path.isCanonical_iff.mp h.canonical
  rw [hSource, Path.join_ofParts hds.left] at hOutside ⊢
  refine ⟨Path.isCanonical_ofParts hds, ?_, ?_, ?_, ?_, sameIdentity_moved s _ n _ name⟩
  all_goals rw [Path.split_ofParts hss]
  · rw [Path.split_ofParts hds, Path.baseName_ofParts hds, root_moved hss hds]
    refine Node.moved_drop_put h.ordered hNode hKind (fun hPrefix => ?_) hFree
    cases hOutside.symm.trans ((Path.isWithin_iff hds hss).mpr hPrefix)
  · rw [Path.split_ofParts hds]
    rcases hFree with hNone | ⟨hFile, hFile'⟩
    · exact .inl (Option.map_eq_none_iff.mp hNone)
    · obtain ⟨m, hm, hmFile⟩ := Option.map_eq_some_iff.mp hFile
      obtain ⟨i, c, rfl⟩ := Node.exists_file hmFile
      obtain ⟨j, d, rfl⟩ := Node.exists_file hFile'
      exact .inr ⟨i, c, j, d, hm, hNode⟩
  · intro rest hInside
    rw [hCwd, Path.split_ofParts hqs] at hInside
    subst hInside
    rw [Path.split_ofParts hds]
    exact cwd_moved_inside hss hds hqs hCwd
  · intro hElsewhere
    rw [hCwd, Path.split_ofParts hqs] at hElsewhere
    apply cwd_moved_outside
    rw [hCwd, Bool.eq_false_iff]
    exact fun hWithin => hElsewhere ((Path.isWithin_iff hqs hss).mp hWithin)

theorem Orderly.move_relocates (h : s.Orderly) (source dest : PathArg) :
    (move source dest).Ends s fun final t => (final = s.resolve source ∧ t = s) ∨
      (final ≠ s.resolve source ∧ s.Relocated (s.resolve source) final t) := by
  refine (move_ends s source dest).mono ?_
  rintro final t ⟨hRoot, n, directory, name, hn, -, hDest, rfl, hSame | ⟨hMoves, hOutside, -, -, target, -, hTarget, -, -,
    hFree, rfl⟩⟩
  · exact .inl hSame
  · exact .inr ⟨hMoves, h.relocated_moved hRoot hn hDest hOutside hTarget hFree⟩

theorem Orderly.move_into_source_fails (h : s.Orderly)
    (hInto : Path.split (s.resolve source) <+: Path.split (s.resolve dest)) :
    ∃ fault, (move source dest).run s = (.error fault, s) := by
  refine (move_ends s source dest).fails ?_
  rintro final t ⟨-, -, -, -, -, hOutside, -⟩
  have hWithin := (Path.isWithin_iff_split (Path.isCanonical_resolve s.home dest h.canonical)
    (Path.isCanonical_resolve s.home source h.canonical)).mpr hInto
  cases hOutside.symm.trans hWithin

theorem Orderly.move_below_source_fails (h : s.Orderly) (hn : s.lookup (s.resolve source) = some n)
    (hDest : s.destination n dest = .ok (directory, name)) (hne : Path.join directory name ≠ s.resolve source)
    (hBelow : Path.split (s.resolve source) <+: Path.split (Path.join directory name)) :
    ∃ fault, (move source dest).run s = (.error fault, s) := by
  refine (move_ends s source dest).fails ?_
  rintro final t ⟨hRoot, m, directory', name', hm, -, hDest', rfl, hCase⟩
  cases hn.symm.trans (lookup_of_reach hm)
  cases hDest.symm.trans hDest'
  rcases hCase with ⟨hSame, -⟩ | ⟨-, hOutside, -⟩
  · exact hne hSame
  · have hWithin := (Path.isWithin_iff_split (h.isCanonical_final hRoot hm hDest)
      (Path.isCanonical_resolve s.home source h.canonical)).mpr hBelow
    cases hOutside.symm.trans hWithin

/-- A move is an exact relocation, and never one into the moved node itself. -/
theorem Orderly.move_exact (h : s.Orderly) (source dest : PathArg) :
    (∀ final t, (move source dest).run s = (.ok final, t) → (final = s.resolve source ∧ t = s) ∨
      (final ≠ s.resolve source ∧ s.Relocated (s.resolve source) final t)) ∧
    (Path.split (s.resolve source) <+: Path.split (s.resolve dest) →
      ∃ fault, (move source dest).run s = (.error fault, s)) ∧
    ∀ n directory name, s.lookup (s.resolve source) = some n → s.destination n dest = .ok (directory, name) →
      Path.join directory name ≠ s.resolve source →
      Path.split (s.resolve source) <+: Path.split (Path.join directory name) →
      ∃ fault, (move source dest).run s = (.error fault, s) :=
  ⟨(h.move_relocates source dest).answer, h.move_into_source_fails,
    fun _ _ _ hn hDest hne hBelow => h.move_below_source_fails hn hDest hne hBelow⟩

/-- The directory that the session is in is moved away, but neither onto itself nor into itself. -/
theorem relocation_of_session : ∃ s t fault fault',
    (Session.fresh? "user" 0.0).map (·.perform [.changeDirectory (some "projets")]) = some s ∧ s.Orderly ∧
    (move (some ".") (some "../documents/old")).run s = (.ok "/home/user/documents/old", t) ∧
    s.Relocated "/home/user/projets" "/home/user/documents/old" t ∧ t.cwd = "/home/user/documents/old" ∧
    (move (some ".") (some ".")).run s = (.error fault, s) ∧
    (move (some ".") (some "new")).run s = (.error fault', s) := by
  have hRun : (Session.fresh? "user" 0.0).map (fun s =>
      let u := s.perform [.changeDirectory (some "projets")]
      (u.cwd, u.resolve (some "."), ((move (some ".") (some "../documents/old")).run u).1.toOption,
        (u.lookup (u.resolve (some "."))).bind fun n => (u.destination n (some "new")).toOption)) =
      some ("/home/user/projets", "/home/user/projets", some "/home/user/documents/old",
        some ("/home/user/projets", "new")) := by
    decide +kernel
  obtain ⟨s, hFresh, hMoved⟩ := Option.map_eq_some_iff.mp hRun
  simp only [Prod.mk.injEq] at hMoved
  obtain ⟨hCwd, hResolve, hOk, hNew⟩ := hMoved
  generalize hStart : s.perform [.changeDirectory (some "projets")] = u at hCwd hResolve hOk hNew
  have hOrderly : u.Orderly := hStart ▸ ((Reached.start hFresh).perform _).inv.sound.tree.orderly
  obtain ⟨n, hn, hDest⟩ := Option.bind_eq_some_iff.mp hNew
  have hDest := Result.toOption_eq_some_iff.mp hDest
  obtain ⟨fault, hItself⟩ := (hOrderly.move_exact (some ".") (some ".")).2.1 List.prefix_rfl
  obtain ⟨fault', hBelow⟩ := (hOrderly.move_exact (some ".") (some "new")).2.2 n _ _ hn hDest
    (by rw [hResolve]; decide) (by rw [hResolve]; decide)
  obtain ⟨t, hEnd⟩ := exists_run_eq hOk
  have hCase := (hOrderly.move_exact (some ".") (some "../documents/old")).1 _ t hEnd
  rw [hResolve] at hCase
  rcases hCase with ⟨hSame, -⟩ | ⟨-, hRelocated⟩
  · exact absurd hSame (by decide)
  · refine ⟨u, t, fault, fault', by rw [hFresh, Option.map_some, hStart], hOrderly, hEnd, hRelocated, ?_, hItself,
      hBelow⟩
    rw [hRelocated.inside [] (by rw [hCwd, List.append_nil])]
    decide

end VirtualShell.Session
