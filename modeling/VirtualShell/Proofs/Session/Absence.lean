import VirtualShell.Proofs.Session.Barred
import VirtualShell.Proofs.Path.Resolution

/-!
# What is missing

Moves and copies complain of something that is missing when the way to the source breaks off, and when the way to the
directory of the destination does. The source has been reached then, and nothing in the complaint tells the two apart
but the path that it names: `tells_move` and `tells_copy`.
-/
namespace VirtualShell
set_option autoImplicit false

theorem Obstacle.kind_eq_notFound_iff {o : Obstacle} : o.kind = .notFound ↔ o = .missing := by
  cases o <;> simp [kind]

namespace Refusal

variable {r : Refusal}

/-- The message says that something is missing only if the kind does. -/
def Honest (r : Refusal) : Prop := Obstacle.missing.text.toList <:+ r.message.toList → r.kind = .notFound

theorem honest_of_ending (ending : String) (hEnd : ending.toList <:+ r.message.toList)
    (hShort : ¬ending.toList <:+ Obstacle.missing.text.toList)
    (hLong : ¬Obstacle.missing.text.toList <:+ ending.toList) : r.Honest := by
  intro hMissing
  rcases List.suffix_or_suffix_of_suffix hMissing hEnd with h | h
  · exact absurd h hLong
  · exact absurd h hShort

theorem suffix_append (s t : String) : t.toList <:+ (s ++ t).toList := by
  rw [String.toList_append]
  exact List.suffix_append _ _

theorem honest_obstructed (attempt : Attempt) (o : Obstacle) : (obstructed attempt o).Honest := by
  have hEnd : o.text.toList <:+ (obstructed attempt o).message.toList := suffix_append _ _
  cases o with
  | missing => exact fun _ => rfl
  | _ => exact honest_of_ending _ hEnd (by decide +kernel) (by decide +kernel)

theorem honest_of_quote {text : String} (h : r.message = text ++ "'") : r.Honest := by
  refine honest_of_ending "'" ?_ (by decide +kernel) (by decide +kernel)
  rw [h]
  exact suffix_append text "'"

theorem honest_sameFile (source target : String) : (sameFile source target).Honest :=
  honest_of_ending "' are the same file" (suffix_append _ _) (by decide +kernel) (by decide +kernel)

end Refusal

/-- There is an answer or a refusal, and it is a refusal because of something missing if and only if `cond` holds. -/
inductive Result.Tells {α : Type} (cond : Prop) : Except Fault α → Prop where
  | ok {a : α} : ¬cond → Tells cond (.ok a)
  | refused {refusal : Refusal} : (refusal.kind = .notFound ↔ cond) → refusal.Honest →
    Tells cond (.error (.refused refusal))

namespace Result

variable {α β : Type} {r : Except Fault α} {cond cond' : Prop}

theorem Tells.congr (h : Tells cond r) (hCond : cond ↔ cond') : Tells cond' r := by
  rwa [← propext hCond]

theorem tells_refuse {refusal : Refusal} (hHonest : refusal.Honest) (hKind : refusal.kind ≠ .notFound)
    (hCond : ¬cond) : Tells cond (refuse refusal : Except Fault α) :=
  .refused (iff_of_false hKind hCond) hHonest

theorem tells_obstructed {attempt : Attempt} {o : Obstacle} (ho : o ≠ .missing) (hCond : ¬cond) :
    Tells cond (refuse (.obstructed attempt o) : Except Fault α) :=
  tells_refuse (Refusal.honest_obstructed attempt o) (mt Obstacle.kind_eq_notFound_iff.mp ho) hCond

theorem tells_bind {f : α → Except Fault β} (hr : Tells cond r) (hf : ∀ a, r = .ok a → Tells cond (f a)) :
    Tells cond (r >>= f) := by
  cases hr with
  | ok _ => exact hf _ rfl
  | refused hKind hHonest => exact .refused hKind hHonest

end Result

/-- What steps tell of something missing, however the session is left. -/
structure Update.Tells {α : Type} (u : Update α) (s : Session) (cond : Prop) : Prop where
  result : Result.Tells cond (u.run s).1

namespace Update

variable {α β : Type} {u : Update β} {s : Session} {cond cond' : Prop}

theorem Tells.congr (h : u.Tells s cond) (hCond : cond ↔ cond') : u.Tells s cond' := ⟨h.result.congr hCond⟩

theorem tells_of_returns (h : u.Returns s fun _ _ => True) (hCond : ¬cond) : u.Tells s cond := by
  obtain ⟨a, t, hRun, -⟩ := h
  constructor
  rw [hRun]
  exact .ok hCond

theorem tells_session_bind {f : Session → Update β} (h : (f s).Tells s cond) : (session >>= f).Tells s cond :=
  ⟨h.result⟩

theorem tells_bind_ok {r : Except Fault α} {a : α} {f : α → Update β} (hr : r = .ok a) (h : (f a).Tells s cond) :
    ((liftM r : Update α) >>= f).Tells s cond := by
  subst hr
  exact ⟨h.result⟩

theorem tells_lift_bind {r : Except Fault α} {f : α → Update β} (hr : Result.Tells cond' r)
    (hError : ∀ fault, r = .error fault → (cond' ↔ cond)) (hOk : ∀ a, r = .ok a → (f a).Tells s cond) :
    ((liftM r : Update α) >>= f).Tells s cond := by
  cases hr with
  | ok _ => exact tells_bind_ok rfl (hOk _ rfl)
  | refused hKind hHonest => exact ⟨.refused (hKind.trans (hError _ rfl)) hHonest⟩

/-- A check that never finds anything missing. -/
theorem tells_check_bind {r : Except Fault α} {f : α → Update β} (hr : Result.Tells False r)
    (hError : ∀ fault, r = .error fault → ¬cond) (hOk : ∀ a, r = .ok a → (f a).Tells s cond) :
    ((liftM r : Update α) >>= f).Tells s cond :=
  tells_lift_bind hr (fun fault hFault => iff_of_false id (hError fault hFault)) hOk

theorem tells_refuse_ite {c : Prop} [Decidable c] {refusal : Refusal}
    (hRefuse : c → Result.Tells cond (refuse refusal : Except Fault β)) (h : ¬c → u.Tells s cond) :
    (if c then liftM (refuse refusal : Except Fault β) else u).Tells s cond := by
  split
  · rename_i hc
    exact ⟨hRefuse hc⟩
  · rename_i hc
    exact h hc

end Update

namespace Session

open Update

variable {s : Session} {path : PathArg} {full directory name dest : String} {source : PathArg} {n m : Node}

/-- The way to a path ends in a directory that lacks the next name. -/
def Missing (s : Session) (full : String) : Prop := s.subject.StopsAlong s.root (Path.split full) .missing

theorem Missing.lookup_eq_none (h : s.Missing full) : s.lookup full = none := by
  obtain ⟨ds, p, rest, d, hParts, ⟨hd, -⟩, hStops⟩ := h
  cases hStops with
  | lacking _ _ hNone => rw [lookup, hParts, Node.get?_append, hd, Option.bind_some, Node.get?_cons, hNone]; rfl

theorem Missing.isDirectory_eq_false (h : s.Missing full) : s.isDirectory full = false := by
  rw [isDirectory, h.lookup_eq_none]

theorem not_missing_of_reach (h : s.reach full path = .ok n) : ¬s.Missing full := fun hMissing => by
  cases (lookup_of_reach h).symm.trans hMissing.lookup_eq_none

theorem tells_reach (hTree : s.root.WellFormed) (full : String) (path : PathArg) :
    Result.Tells (s.Missing full) (s.reach full path) := by
  cases hReach : s.reach full path with
  | ok n => exact .ok (not_missing_of_reach hReach)
  | error fault =>
    obtain ⟨o, hStops, rfl⟩ := (Subject.reach_eq_error_iff hTree).mp hReach
    by_cases ho : o = .missing
    · subst ho
      exact .refused (iff_of_true rfl hStops) (Refusal.honest_obstructed _ _)
    · refine Result.tells_obstructed ho fun hMissing => ho ?_
      cases hReach.symm.trans ((Subject.reach_eq_error_iff hTree).mpr ⟨_, hMissing, rfl⟩)
      rfl

theorem tells_reachDirectory (hTree : s.root.WellFormed) (full : String) (path : PathArg) :
    Result.Tells (s.Missing full) (s.reachDirectory full path) := by
  refine Result.tells_bind (tells_reach hTree full path) fun n hn => ?_
  split
  · exact .ok (not_missing_of_reach hn)
  · exact Result.tells_obstructed (by decide) (not_missing_of_reach hn)

section

variable {β : Type} {f : Node → Update β} {cond : Prop}

/-- The first step to a node: if it is taken, nothing is missing but what `cond` says. -/
theorem tells_reach_bind (hTree : s.root.WellFormed) (hNeeds : cond → ∃ n, s.reach full path = .ok n)
    (h : ∀ n, s.reach full path = .ok n → (f n).Tells s cond) :
    ((liftM (s.reach full path) : Update Node) >>= f).Tells s (s.Missing full ∨ cond) := by
  refine tells_lift_bind (tells_reach hTree full path) (fun fault hFault => ?_) fun n hn => ?_
  · refine (or_iff_left fun hCond => ?_).symm
    obtain ⟨n, hn⟩ := hNeeds hCond
    cases hFault.symm.trans hn
  · exact (h n hn).congr (or_iff_right (not_missing_of_reach hn)).symm

/-- The last step that may find something missing. -/
theorem tells_reachDirectory_bind (hTree : s.root.WellFormed) (hCond : cond ↔ s.Missing full)
    (h : ∀ n, s.lookup full = some n → ¬cond → (f n).Tells s cond) :
    ((liftM (s.reachDirectory full path) : Update Node) >>= f).Tells s cond := by
  refine tells_lift_bind (tells_reachDirectory hTree full path) (fun _ _ => hCond.symm) fun n hn => ?_
  have hLookup := (lookup_of_reachDirectory hn).1
  refine h n hLookup fun h => ?_
  cases hLookup.symm.trans (hCond.mp h).lookup_eq_none

end

theorem tells_requireModifiable (h : n.info.Valid) (attempt : Attempt) :
    Result.Tells False (s.requireModifiable n attempt) := by
  rcases requireModifiable_or h s attempt with hModify | hModify
  · rw [hModify]
    exact .ok id
  · rw [hModify]
    exact Result.tells_obstructed (by decide) id

theorem tells_requireReadable {xs : List (String × Node)} (h : ∀ q m, (q, m) ∈ xs → m.info.Valid) :
    Result.Tells False (s.requireReadable xs) := by
  induction xs with
  | nil => exact .ok id
  | cons x xs ih =>
    obtain ⟨q, m⟩ := x
    obtain ⟨hm, hxs⟩ : m.info.Valid ∧ ∀ q m, (q, m) ∈ xs → m.info.Valid :=
      ⟨h q m List.mem_cons_self, fun q m hMem => h q m (List.mem_cons_of_mem _ hMem)⟩
    rw [requireReadable]
    generalize (if m.isDir then [Access.read, .execute] else [.read]) = needed
    rw [Subject.mayAll_eq hm, Result.ok_bind]
    split
    · exact ih hxs
    · exact Result.tells_obstructed (by decide) id

/-- Nothing is wrong with a destination, but the directory that it needs is missing. -/
structure Astray (s : Session) (dest : String) : Prop where
  unslashed : dest.toList.getLast? ≠ some '/'
  named : Path.hasUnsafe (Path.baseName (s.resolve (some dest))) = false
  missing : s.Missing (Path.parentOf (s.resolve (some dest)))

def Movable (s : Session) (source dest : String) : Prop :=
  ∃ n, s.reach (s.resolve (some source)) (some source) = .ok n ∧
    Path.isWithin (s.resolve (some dest)) (s.resolve (some source)) = false

/-- The source was reached, all of it may be copied, and it is not to be copied into itself. -/
def Copyable (s : Session) (source dest : String) (recursive : Bool) : Prop :=
  ∃ n, s.reach (s.resolve (some source)) (some source) = .ok n ∧ (n.isDir = true → recursive = true) ∧
    s.requireReadable (n.walk (s.resolve (some source))) = .ok () ∧
    (n.isDir = true → Path.isWithin (s.resolve (some dest)) (s.resolve (some source)) = false)

theorem not_missing_root (s : Session) : ¬s.Missing "/" := Subject.not_stopsAlong_nil

theorem split_ne_nil_of_missing (h : s.Missing (Path.parentOf full)) : Path.split full ≠ [] := by
  intro hNil
  rw [Path.parentOf, hNil] at h
  exact s.not_missing_root h

/-- There is nothing in a directory that is missing. -/
theorem lookup_of_missing_parent (h : s.Missing (Path.parentOf full)) : s.lookup full = none := by
  rw [← lookup_entry (split_ne_nil_of_missing h), h.lookup_eq_none]
  rfl

theorem isDirectory_of_missing_parent (h : s.Missing (Path.parentOf full)) : s.isDirectory full = false := by
  rw [isDirectory, lookup_of_missing_parent h]

theorem tells_destination (s : Session) (n : Node) (dest : String) :
    Result.Tells False (s.destination n (some dest)) := by
  rw [destination]
  split
  · exact Result.tells_obstructed (by decide) id
  · split <;> exact .ok id

theorem not_astray_of_destination {fault : Fault} (h : s.destination n (some dest) = .error fault) :
    ¬s.Astray dest := by
  rintro ⟨hSlash, -, -⟩
  rw [destination] at h
  split at h
  · rename_i hBad
    exact hSlash (by simpa using (Bool.and_eq_true_iff.mp hBad).1)
  · split at h <;> cases h

theorem astray_of_missing (h : s.destination n (some dest) = .ok (directory, name))
    (hSafe : Path.hasUnsafe name = false) (hMissing : s.Missing directory) : s.Astray dest := by
  rw [destination] at h
  split at h
  · cases h
  · rename_i hSlash
    split at h
    · rename_i hDir
      cases h
      cases hDir.symm.trans hMissing.isDirectory_eq_false
    · rename_i hDir
      cases h
      exact ⟨fun hLast => hSlash (by simp [hLast, hDir]), hSafe, hMissing⟩

/-- The directory is the one above the destination, and what is put there is put at the destination. -/
theorem Astray.place (hAstray : s.Astray dest) (hCwd : Path.isCanonical s.cwd = true)
    (h : s.destination n (some dest) = .ok (directory, name)) :
    Path.hasUnsafe name = false ∧ s.Missing directory ∧ Path.join directory name = s.resolve (some dest) := by
  obtain ⟨hSlash, hSafe, hMissing⟩ := hAstray
  rw [destination] at h
  split at h
  · cases h
  · rw [if_neg (by simp [isDirectory_of_missing_parent hMissing])] at h
    cases h
    refine ⟨hSafe, hMissing, ?_⟩
    refine Path.join_parentOf_baseName (Path.isCanonical_resolve s.home (some dest) hCwd) fun hTop => ?_
    refine split_ne_nil_of_missing hMissing ?_
    rw [hTop, Path.split_root]

theorem child?_of_parentNode {parent : Node} (hCwd : Path.isCanonical s.cwd = true) (hRoot : s.resolve source ≠ "/")
    (hn : s.reach (s.resolve source) source = .ok n) (hParent : s.parentNode (s.resolve source) = .ok parent) :
    parent.child? n.name = some n := by
  obtain ⟨ss, hss, hSource, hNode⟩ := source_parts hCwd hRoot hn
  have hLookup := parentNode_eq_ok_iff.mp hParent
  rw [hSource, Path.parentOf_ofParts hss, List.dropLast_concat, lookup_ofParts hss.left] at hLookup
  rw [Node.get?_concat, hLookup] at hNode
  exact hNode

theorem isWithin_self (path : String) : Path.isWithin path path = true := by
  simp [Path.isWithin]

/-- A move says that something is missing if the source is, or if it is there and the directory for it is missing. -/
theorem tells_move (h : s.TreeSound) (source dest : String) : (move (some source) (some dest)).Tells s
    (s.Missing (s.resolve (some source)) ∨ s.Movable source dest ∧ s.Astray dest) := by
  have hTree := h.wellFormed
  unfold move
  refine tells_session_bind (tells_refuse_ite (fun hTop => ?_) fun hBelow => ?_)
  · refine Result.tells_obstructed (by decide) ?_
    rw [eq_of_beq hTop]
    rintro (hMissing | ⟨⟨n, -, hOutside⟩, -⟩)
    · exact s.not_missing_root hMissing
    · rw [eq_of_beq hTop] at hOutside
      cases hOutside
  have hBelow : s.resolve (some source) ≠ "/" := by simpa using hBelow
  refine tells_reach_bind hTree (fun ⟨⟨n, hn, _⟩, _⟩ => ⟨n, hn⟩) fun n hn => ?_
  refine tells_refuse_ite (fun hWithin => ?_) fun hOutside => ?_
  · refine Result.tells_refuse (Refusal.honest_of_quote rfl) (by simp [Refusal.kind]) ?_
    rintro ⟨⟨m, -, hOutside⟩, -⟩
    cases hWithin.symm.trans hOutside
  have hOutside : Path.isWithin (s.resolve (some dest)) (s.resolve (some source)) = false := by simpa using hOutside
  refine tells_check_bind (s.tells_destination n dest)
    (fun fault hFault hCond => not_astray_of_destination hFault hCond.2) fun ⟨directory, name⟩ hDest => ?_
  dsimp only
  split
  · rename_i hSame
    refine tells_of_returns (returns_pure trivial) fun ⟨_, hAstray⟩ => ?_
    rw [← (hAstray.place h.canonical hDest).2.2, eq_of_beq hSame, isWithin_self] at hOutside
    cases hOutside
  refine tells_refuse_ite (fun hWithin => ?_) fun _ => ?_
  · refine Result.tells_refuse (Refusal.honest_of_quote rfl) (by simp [Refusal.kind]) fun ⟨_, hAstray⟩ => ?_
    rw [(hAstray.place h.canonical hDest).2.2] at hWithin
    cases hWithin.symm.trans hOutside
  refine tells_refuse_ite (fun hUnsafe => ?_) fun hSafe => ?_
  · refine Result.tells_obstructed (by decide) fun ⟨_, hAstray⟩ => ?_
    cases hUnsafe.symm.trans (hAstray.place h.canonical hDest).1
  obtain ⟨parent, hParent⟩ := exists_parentNode h.canonical hBelow hn
  refine tells_bind_ok hParent (tells_reachDirectory_bind hTree ?_ fun target hTarget hPresent => ?_)
  · exact ⟨fun ⟨_, hAstray⟩ => (hAstray.place h.canonical hDest).2.1,
      fun hMissing => ⟨⟨n, hn, hOutside⟩, astray_of_missing hDest (by simpa using hSafe) hMissing⟩⟩
  refine tells_check_bind (tells_requireModifiable (hTree.get? (parentNode_eq_ok_iff.mp hParent)).info_valid _)
    (fun _ _ => hPresent) fun _ _ => ?_
  refine tells_check_bind (tells_requireModifiable (hTree.get? hTarget).info_valid _) (fun _ _ => hPresent)
    fun _ _ => ?_
  refine tells_refuse_ite (fun _ => Result.tells_obstructed (by decide) hPresent) fun _ => ?_
  -- the entry is there, so nothing crashes
  rw [child?_of_parentNode h.canonical hBelow hn hParent, if_neg (by simp)]
  exact tells_of_returns (returns_write_bind (returns_write_bind (returns_write_bind (returns_pure trivial)))) hPresent

/-- A copy says so on the same grounds. -/
theorem tells_copy (h : s.TreeSound) (source dest : String) (recursive : Bool) :
    (copy (some source) (some dest) recursive).Tells s
      (s.Missing (s.resolve (some source)) ∨ s.Copyable source dest recursive ∧ s.Astray dest) := by
  have hTree := h.wellFormed
  unfold copy
  refine tells_session_bind (tells_reach_bind hTree (fun ⟨⟨n, hn, _⟩, _⟩ => ⟨n, hn⟩) fun n hn => ?_)
  have hCopyable : s.Copyable source dest recursive ↔ (n.isDir = true → recursive = true) ∧
      s.requireReadable (n.walk (s.resolve (some source))) = .ok () ∧
      (n.isDir = true → Path.isWithin (s.resolve (some dest)) (s.resolve (some source)) = false) := by
    constructor
    · rintro ⟨m, hm, hChecks⟩
      cases hn.symm.trans hm
      exact hChecks
    · exact fun hChecks => ⟨n, hn, hChecks⟩
  rw [hCopyable]
  refine tells_refuse_ite (fun hOmitted => ?_) fun hRecursive => ?_
  · refine Result.tells_refuse (Refusal.honest_of_quote rfl) (by simp [Refusal.kind]) fun ⟨⟨hRecursive, _⟩, _⟩ => ?_
    obtain ⟨hDir, hPlain⟩ : n.isDir = true ∧ recursive = false := by simpa using hOmitted
    cases hPlain.symm.trans (hRecursive hDir)
  have hNodes : ∀ q m, (q, m) ∈ n.walk (s.resolve (some source)) → m.info.Valid := fun q m hm =>
    ((hTree.get? (lookup_of_reach hn)).of_mem_walk hm).info_valid
  refine tells_check_bind (tells_requireReadable hNodes) (fun fault hFault => ?_) fun _ hReadable => ?_
  · rintro ⟨⟨-, hReadable, -⟩, -⟩
    cases hFault.symm.trans hReadable
  refine tells_check_bind (s.tells_destination n dest)
    (fun fault hFault hCond => not_astray_of_destination hFault hCond.2) fun ⟨directory, name⟩ hDest => ?_
  dsimp only
  refine tells_refuse_ite (fun hInto => ?_) fun hOutside => ?_
  · refine Result.tells_refuse (Refusal.honest_of_quote rfl) (by simp [Refusal.kind]) ?_
    rintro ⟨⟨-, -, hOutside⟩, hAstray⟩
    obtain ⟨hDir, hWithin⟩ := Bool.and_eq_true_iff.mp hInto
    rw [(hAstray.place h.canonical hDest).2.2] at hWithin
    cases hWithin.symm.trans (hOutside hDir)
  refine tells_refuse_ite (fun hSame => ?_) fun _ => ?_
  · refine Result.tells_refuse (Refusal.honest_sameFile _ _) (by simp [Refusal.kind]) fun ⟨_, hAstray⟩ => ?_
    have hNone := lookup_of_missing_parent hAstray.missing
    rw [← (hAstray.place h.canonical hDest).2.2, eq_of_beq hSame, lookup_of_reach hn] at hNone
    cases hNone
  refine tells_refuse_ite (fun hUnsafe => ?_) fun hSafe => ?_
  · refine Result.tells_obstructed (by decide) fun ⟨_, hAstray⟩ => ?_
    cases hUnsafe.symm.trans (hAstray.place h.canonical hDest).1
  refine tells_reachDirectory_bind hTree ⟨fun ⟨_, hAstray⟩ => (hAstray.place h.canonical hDest).2.1, fun hMissing => ?_⟩
    fun target hTarget hPresent => ?_
  · have hAstray := astray_of_missing hDest (by simpa using hSafe) hMissing
    refine ⟨⟨fun hDir => by simpa [hDir] using hRecursive, hReadable, fun hDir => ?_⟩, hAstray⟩
    rw [← (hAstray.place h.canonical hDest).2.2]
    simpa [hDir] using hOutside
  split
  · rename_i e hChild
    have hValid := ((hTree.get? hTarget).of_mem (Node.mem_of_child? hChild)).info_valid
    refine tells_refuse_ite (fun _ => Result.tells_obstructed (by decide) hPresent) fun _ => ?_
    refine tells_bind_ok (Subject.may_eq hValid) ?_
    split
    · exact tells_of_returns (returns_write_bind (returns_pure trivial)) hPresent
    · exact ⟨Result.tells_obstructed (by decide) hPresent⟩
  · refine tells_check_bind (tells_requireModifiable (hTree.get? hTarget).info_valid _) (fun _ _ => hPresent)
      fun _ _ => ?_
    exact tells_of_returns (returns_write_bind (returns_pure trivial)) hPresent

end Session

end VirtualShell
