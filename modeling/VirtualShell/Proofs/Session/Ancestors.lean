import VirtualShell.Proofs.Session.Run

/-!
# The directories above a changed entry

Whoever puts an entry in a directory or takes it out has searched all directories on the way to it.
A file that is there already is written without a look at the directory that it stands in; every
directory further up is searched in this case as well.
-/
namespace VirtualShell
set_option autoImplicit false

theorem Subject.may_of_mayAll {u : Subject} {n : Node} {a : Access} {as : List Access}
    (h : u.mayAll n as = .ok true) (ha : a ∈ as) : u.may a n = .ok true := by
  induction as with
  | nil => cases ha
  | cons b bs ih =>
    rw [mayAll] at h
    obtain ⟨may, hMay, h⟩ := Result.exists_of_bind_ok h
    split at h
    · rename_i hTrue
      subst hTrue
      rcases List.mem_cons.mp ha with rfl | ha
      · exact hMay
      · exact ih h ha
    · cases h

/-- What was reached lies in directories that are searchable. -/
theorem Subject.may_of_reach {u : Subject} {shown : String} {n m d : Node} {ds rest : List String}
    (h : u.reach shown n (ds ++ rest) = .ok m) (hRest : rest ≠ []) (hd : n.get? ds = some d) :
    u.may .execute d = .ok true := by
  induction ds generalizing n with
  | nil =>
    cases hd
    obtain ⟨p, ps, rfl⟩ := List.exists_cons_of_ne_nil hRest
    rw [List.nil_append, reach] at h
    split at h
    · obtain ⟨may, hMay, h⟩ := Result.exists_of_bind_ok h
      split at h
      · rename_i hTrue
        rw [hMay, hTrue]
      · cases h
    · cases h
  | cons q ds ih =>
    rw [Node.get?_cons] at hd
    obtain ⟨e, he, hd⟩ := Option.bind_eq_some_iff.mp hd
    rw [List.cons_append, reach] at h
    split at h
    · obtain ⟨may, -, h⟩ := Result.exists_of_bind_ok h
      split at h
      · rw [he] at h
        exact ih h hd
      · cases h
    · cases h

namespace Session

/-- All directories above the place `ps` are searchable. Those that are not there need not be. -/
def Searchable (s : Session) (ps : List String) : Prop :=
  ∀ ds rest d, ps = ds ++ rest → rest ≠ [] → s.root.get? ds = some d → s.subject.may .execute d = .ok true

/-- The place that a copied or moved node goes to, unless it is there already. -/
def landing (s : Session) (source dest : PathArg) : List (List String) :=
  match s.lookup (s.resolve source) with
  | some n =>
    match s.destination n dest with
    | .ok (directory, name) =>
      if Path.join directory name == s.resolve source then [] else [Path.split directory ++ [name]]
    | .error _ => []
  | none => []

/-- The places whose entries an operation makes, writes or removes when it succeeds. -/
def touched (s : Session) : Operation → List (List String)
  | .createFile path _ | .createDirectory path _ | .write path _ _ | .remove path _ | .removeDirectory path =>
    [Path.split (s.resolve path)]
  | .move source dest => Path.split (s.resolve source) :: s.landing source dest
  | .copy source dest _ => s.landing source dest
  | _ => []

/-- The operation writes to a file that is there, in a directory below searchable ones. -/
def Rewrites (s : Session) (o : Operation) (ps : List String) : Prop :=
  (match o with
    | .createFile .. | .write .. | .copy .. => True
    | _ => False) ∧
  ∃ ds name i c, ps = ds ++ [name] ∧ s.Searchable ds ∧ s.root.get? ps = some (.file i c)

variable {s : Session} {path : PathArg} {full : String} {n : Node} {ps : List String}

theorem Searchable.concat {name : String} (h : s.Searchable ps)
    (hLast : ∀ d, s.root.get? ps = some d → s.subject.may .execute d = .ok true) :
    s.Searchable (ps ++ [name]) := by
  intro ds rest d hps hRest hd
  rcases List.eq_nil_or_concat rest with rfl | ⟨rest, last, rfl⟩
  · exact absurd rfl hRest
  · rw [List.concat_eq_append, ← List.append_assoc] at hps
    obtain ⟨hInit, -⟩ := List.append_inj' hps rfl
    by_cases hNil : rest = []
    · subst hNil
      rw [List.append_nil] at hInit
      exact hLast d (hInit ▸ hd)
    · exact h ds rest d hInit hNil hd

theorem searchable_of_reach (h : s.reach full path = .ok n) : s.Searchable (Path.split full) := by
  intro ds rest d hps hRest hd
  rw [reach, hps] at h
  exact Subject.may_of_reach h hRest hd

theorem searchable_of_reachDirectory (h : s.reachDirectory full path = .ok n) :
    s.Searchable (Path.split full) := by
  unfold reachDirectory at h
  obtain ⟨m, hReach, -⟩ := Result.exists_of_bind_ok h
  exact searchable_of_reach hReach

theorem may_of_requireModifiable {attempt : Attempt} (h : s.requireModifiable n attempt = .ok ()) :
    s.subject.may .execute n = .ok true := by
  unfold requireModifiable at h
  obtain ⟨may, hMay, h⟩ := Result.exists_of_bind_ok h
  split at h
  · rename_i hTrue
    subst hTrue
    exact Subject.may_of_mayAll hMay (List.mem_cons_of_mem _ List.mem_cons_self)
  · cases h

/-- An entry that may be put into a directory or taken out of it has searchable directories above it. -/
theorem searchable_of_requireModifiable {attempt : Attempt} {name : String}
    (hReach : s.reachDirectory full path = .ok n) (hModify : s.requireModifiable n attempt = .ok ()) :
    s.Searchable (Path.split full ++ [name]) := by
  apply (searchable_of_reachDirectory hReach).concat
  intro d hd
  have hLookup : s.root.get? (Path.split full) = some n := (lookup_of_reachDirectory hReach).1
  cases hLookup.symm.trans hd
  exact may_of_requireModifiable hModify

/-- The way down to what is missing is searchable, and below it there is nothing. -/
theorem searchable_of_planDirectories {u : Subject} {text : String} {parents : Bool}
    {place parts ds rest : List String} {plan : DirectoryPlan} {d : Node}
    (h : planDirectories u text parents place n parts = .ok plan) (hParts : parts = ds ++ rest)
    (hRest : rest ≠ []) (hd : n.get? ds = some d) : u.may .execute d = .ok true := by
  induction parts generalizing place n ds with
  | nil =>
    obtain ⟨-, hNil⟩ := List.append_eq_nil_iff.mp hParts.symm
    exact absurd hNil hRest
  | cons p ps ih =>
    rw [planDirectories] at h
    obtain ⟨may, hMay, h⟩ := Result.exists_of_bind_ok h
    split at h
    · rename_i hTrue
      cases ds with
      | nil =>
        cases hd
        rw [hMay, hTrue]
      | cons q ds =>
        obtain ⟨rfl, hps⟩ := List.cons.inj hParts
        rw [Node.get?_cons] at hd
        obtain ⟨e, he, hd⟩ := Option.bind_eq_some_iff.mp hd
        rw [he] at h
        cases e with
        | file i c => cases h
        | dir i es =>
          dsimp only at h
          split at h
          · cases h
          · exact ih h hps hd
    · cases h

/-- A path to write at is not the root's. -/
theorem split_of_requireWritePath (h : s.requireWritePath path = .ok full) :
    full = s.resolve path ∧ Path.split full = Path.split (Path.parentOf full) ++ [Path.baseName full] := by
  obtain ⟨text, rfl, hText, -, -, hFull, hRoot⟩ := Path.forWriting_eq_some.mp (forWriting_of_requireWritePath h)
  refine ⟨hFull, Path.split_eq_concat fun hNil => hRoot ?_⟩
  have hSplit := Path.ofParts_split_resolve s.home s.cwd hText
  rw [← hFull, hNil] at hSplit
  exact hSplit.symm

theorem split_ne_nil_of_requireWritePath (h : s.requireWritePath path = .ok full) : Path.split full ≠ [] := by
  rw [(split_of_requireWritePath h).2]
  exact List.concat_ne_nil _ _

open Update

/-- The places that an operation touches are below searchable directories, or it rewrites a file. -/
def Cleared (s : Session) (o : Operation) : Prop := ∀ q ∈ s.touched o, s.Searchable q ∨ s.Rewrites o q

theorem get?_of_child {parent e : Node} {directory name : String}
    (hReach : s.reachDirectory directory path = .ok parent) (hChild : parent.child? name = some e) :
    s.root.get? (Path.split directory ++ [name]) = some e := by
  have hLookup : s.root.get? (Path.split directory) = some parent := (lookup_of_reachDirectory hReach).1
  rw [Node.get?_concat, hLookup]
  exact hChild

/-- The target of a write is a file that is there, or it is to be put into a directory that may be changed. -/
theorem searchable_or_file {parent : Node} {attempt : Attempt} (hTarget : s.requireWritePath path = .ok full)
    (hParent : s.reachDirectory (Path.parentOf full) path = .ok parent)
    (hCase : (∃ i c, parent.child? (Path.baseName full) = some (.file i c)) ∨
      s.requireModifiable parent attempt = .ok ()) :
    s.Searchable (Path.split (s.resolve path)) ∨ ∃ ds name i c, Path.split (s.resolve path) = ds ++ [name] ∧
      s.Searchable ds ∧ s.root.get? (Path.split (s.resolve path)) = some (.file i c) := by
  obtain ⟨rfl, hSplit⟩ := split_of_requireWritePath hTarget
  rcases hCase with ⟨i, c, hChild⟩ | hModify
  · right
    refine ⟨_, _, i, c, hSplit, searchable_of_reachDirectory hParent, ?_⟩
    rw [hSplit]
    exact get?_of_child hParent hChild
  · left
    rw [hSplit]
    exact searchable_of_requireModifiable hParent hModify

theorem createFile_clears (path : PathArg) (content : String) :
    (createFile path content).Ends s fun _ _ => s.Cleared (.createFile path content) := by
  refine (createFile_ends s path content).mono fun target t h q hq => ?_
  obtain ⟨hTarget, parent, hParent, hCase⟩ := h
  obtain rfl : q = _ := List.mem_singleton.mp hq
  refine (searchable_or_file hTarget hParent (hCase.imp ?_ fun h => h.2.1)).imp_right fun hFile => ⟨trivial, hFile⟩
  rintro ⟨i, c, hChild, -⟩
  exact ⟨i, c, hChild⟩

theorem writeFile_clears (path : PathArg) (content : String) (append : Bool) :
    (writeFile path content append).Ends s fun _ _ => s.Cleared (.write path content append) := by
  refine (writeFile_ends s path content append).mono fun target t h q hq => ?_
  obtain ⟨hTarget, parent, hParent, hCase⟩ := h
  obtain rfl : q = _ := List.mem_singleton.mp hq
  refine (searchable_or_file hTarget hParent (hCase.imp ?_ fun h => h.2.1)).imp_right fun hFile => ⟨trivial, hFile⟩
  rintro ⟨i, c, hChild, -⟩
  exact ⟨i, c, hChild⟩

theorem createDirectory_clears (path : PathArg) (parents : Bool) :
    (createDirectory path parents).Ends s fun _ _ => s.Cleared (.createDirectory path parents) := by
  refine (createDirectory_ends s path parents).mono fun target t h q hq => ?_
  obtain ⟨hTarget, plan, hPlan, -⟩ := h
  obtain ⟨rfl, -⟩ := split_of_requireWritePath hTarget
  obtain rfl : q = _ := List.mem_singleton.mp hq
  exact .inl fun ds rest d hps hRest hd => searchable_of_planDirectories hPlan hps hRest hd

theorem remove_clears (path : PathArg) (recursive : Bool) :
    (remove path recursive).Ends s fun _ _ => s.Cleared (.remove path recursive) := by
  refine (remove_ends s path recursive).mono fun target t h q hq => ?_
  obtain ⟨rfl, -, n, parent, hn, -⟩ := h
  obtain rfl : q = _ := List.mem_singleton.mp hq
  exact .inl (searchable_of_reach hn)

theorem removeDirectory_clears (path : PathArg) :
    (removeDirectory path).Ends s fun _ _ => s.Cleared (.removeDirectory path) := by
  refine (removeDirectory_ends s path).mono fun target t h q hq => ?_
  obtain ⟨rfl, -, n, parent, hn, -⟩ := h
  obtain rfl : q = _ := List.mem_singleton.mp hq
  exact .inl (searchable_of_reach hn)

theorem landing_eq {source dest : PathArg} {n : Node} {directory name : String}
    (hn : s.reach (s.resolve source) source = .ok n) (hDest : s.destination n dest = .ok (directory, name)) :
    s.landing source dest =
      if Path.join directory name == s.resolve source then [] else [Path.split directory ++ [name]] := by
  rw [landing, lookup_of_reach hn]
  dsimp only
  rw [hDest]

theorem eq_of_mem_landing {source dest : PathArg} {directory name : String} {q : List String}
    (hn : s.reach (s.resolve source) source = .ok n) (hDest : s.destination n dest = .ok (directory, name))
    (hq : q ∈ s.landing source dest) :
    Path.join directory name ≠ s.resolve source ∧ q = Path.split directory ++ [name] := by
  rw [landing_eq hn hDest] at hq
  split at hq
  · cases hq
  · rename_i hMoves
    exact ⟨by simpa using hMoves, List.mem_singleton.mp hq⟩

theorem move_clears (source dest : PathArg) :
    (move source dest).Ends s fun _ _ => s.Cleared (.move source dest) := by
  refine (move_ends s source dest).mono fun final t h q hq => ?_
  obtain ⟨-, n, directory, name, hn, -, hDest, hFinal, hCase⟩ := h
  rcases List.mem_cons.mp hq with rfl | hq
  · exact .inl (searchable_of_reach hn)
  · obtain ⟨hMoves, rfl⟩ := eq_of_mem_landing hn hDest hq
    rcases hCase with ⟨hSame, -⟩ | ⟨-, -, -, parent, target, -, hTarget, -, hPut, -⟩
    · exact absurd (hFinal.symm.trans hSame) hMoves
    · exact .inl (searchable_of_requireModifiable hTarget hPut)

theorem copy_clears (source dest : PathArg) (recursive : Bool) :
    (copy source dest recursive).Ends s fun _ _ => s.Cleared (.copy source dest recursive) := by
  refine (copy_ends s source dest recursive).mono fun final t h q hq => ?_
  obtain ⟨n, directory, name, hn, -, -, hDest, -, -, -, -, target, hTarget, hCase⟩ := h
  obtain ⟨-, rfl⟩ := eq_of_mem_landing hn hDest hq
  rcases hCase with ⟨e, hChild, hFile, -⟩ | ⟨-, hModify, -⟩
  · cases e with
    | dir i es => cases hFile
    | file i c =>
      exact .inr ⟨trivial, _, _, i, c, rfl, searchable_of_reachDirectory hTarget, get?_of_child hTarget hChild⟩
  · exact .inl (searchable_of_requireModifiable hTarget hModify)

theorem cleared_of_run {o : Operation} {u : Update String} {answer : Answer} {t : Session}
    (hEnds : u.Ends s fun _ _ => s.Cleared o) (hRun : (Answer.text <$> u).run s = (.ok answer, t)) :
    s.Cleared o := by
  have hMap : (Answer.text <$> u).Ends s fun _ _ => s.Cleared o := ends_map hEnds
  exact hMap.answer answer t hRun

/-- Who changes the tree has searched all directories above the entries that are touched, but for the one
in which a file is rewritten. -/
theorem touched_searchable {o : Operation} {answer : Answer} (h : (s.apply o).1 = .ok answer) :
    ∀ q ∈ s.touched o, s.Searchable q ∨ s.Rewrites o q := by
  have hRun : (steps o).run s = (.ok answer, (s.apply o).2) := Prod.ext h rfl
  cases o with
  | createFile path content => exact cleared_of_run (createFile_clears path content) hRun
  | createDirectory path parents => exact cleared_of_run (createDirectory_clears path parents) hRun
  | write path content append => exact cleared_of_run (writeFile_clears path content append) hRun
  | remove path recursive => exact cleared_of_run (remove_clears path recursive) hRun
  | removeDirectory path => exact cleared_of_run (removeDirectory_clears path) hRun
  | move source dest => exact cleared_of_run (move_clears source dest) hRun
  | copy source dest recursive => exact cleared_of_run (copy_clears source dest recursive) hRun
  | _ => exact fun q hq => nomatch hq

def inClosedDirectory : List Operation :=
  [.createDirectory (some "d") false, .createFile (some "d/f") "", .changeMode (some "d") "600"]

/-- A move to another directory touches two places. -/
theorem searchable_around_move : ∃ s answer, Session.fresh? "user" 0.0 = some s ∧
    (s.apply (.move (some "documents/notes.txt") (some "projets/plan.txt"))).1 = .ok answer ∧
    s.touched (.move (some "documents/notes.txt") (some "projets/plan.txt")) =
      [["home", "user", "documents", "notes.txt"], ["home", "user", "projets", "plan.txt"]] ∧
    ∀ q ∈ s.touched (.move (some "documents/notes.txt") (some "projets/plan.txt")),
      s.Searchable q ∨ s.Rewrites (.move (some "documents/notes.txt") (some "projets/plan.txt")) q := by
  have hRun : (Session.fresh? "user" 0.0).map (fun s =>
      ((s.apply (.move (some "documents/notes.txt") (some "projets/plan.txt"))).1.toOption.isSome,
        s.touched (.move (some "documents/notes.txt") (some "projets/plan.txt")))) =
      some (true, [["home", "user", "documents", "notes.txt"], ["home", "user", "projets", "plan.txt"]]) := by
    decide +kernel
  obtain ⟨s, hFresh, hMoved⟩ := Option.map_eq_some_iff.mp hRun
  obtain ⟨hOk, hTouched⟩ := Prod.mk.inj hMoved
  cases hResult : (s.apply (.move (some "documents/notes.txt") (some "projets/plan.txt"))).1 with
  | error fault =>
    rw [hResult] at hOk
    cases hOk
  | ok answer => exact ⟨s, answer, hFresh, hResult, hTouched, touched_searchable hResult⟩

/-- Whoever may not search a directory may still rewrite his file in it. -/
theorem not_searchable_around_rewrite : ¬∀ (s : Session) (o : Operation) (answer : Answer),
    s.subject.isAdmin = false → (s.apply o).1 = .ok answer → ∀ q ∈ s.touched o, s.Searchable q := by
  intro h
  have hRun : (Session.fresh? "user" 0.0).map (fun s =>
      let t := s.perform inClosedDirectory
      (t.subject.isAdmin, (t.apply (.createFile (some "d/f") "")).1.toOption.isSome,
        t.touched (.createFile (some "d/f") ""),
        (t.root.get? ["home", "user", "d"]).map fun d => (t.subject.may .execute d).toOption)) =
      some (false, true, [["home", "user", "d", "f"]], some (some false)) := by
    decide +kernel
  obtain ⟨s, -, hWritten⟩ := Option.map_eq_some_iff.mp hRun
  simp only [Prod.mk.injEq] at hWritten
  obtain ⟨hUser, hOk, hTouched, hClosed⟩ := hWritten
  obtain ⟨d, hd, hMay⟩ := Option.map_eq_some_iff.mp hClosed
  cases hResult : ((s.perform inClosedDirectory).apply (.createFile (some "d/f") "")).1 with
  | error fault =>
    rw [hResult] at hOk
    cases hOk
  | ok answer =>
    have hPlace : ["home", "user", "d", "f"] ∈
        (s.perform inClosedDirectory).touched (.createFile (some "d/f") "") := by
      rw [hTouched]
      exact List.mem_singleton_self _
    have hSearch := h _ _ _ hUser hResult _ hPlace ["home", "user", "d"] ["f"] d rfl (List.cons_ne_nil _ _) hd
    rw [hSearch] at hMay
    cases hMay

end Session

end VirtualShell
