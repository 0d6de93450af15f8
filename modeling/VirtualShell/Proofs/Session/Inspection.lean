import Mathlib.Data.List.Sort
import VirtualShell.Proofs.Session.Descent
import VirtualShell.Proofs.Session.Enrolment

/-!
# Inspection

To look at a path or to go there takes the way down to it. If no name stops it, the node that a lookup finds decides by
itself. Nothing is changed but the working directory of whoever goes somewhere.
-/
namespace VirtualShell
set_option autoImplicit false

/-- A listing is known by its members. -/
theorem Keyed.Ordered.eq_of_mem_iff {α : Type} {key : α → String} {xs ys : List α} (hxs : Ordered key xs)
    (hys : Ordered key ys) (h : ∀ x, x ∈ xs ↔ x ∈ ys) : xs = ys := by
  have : Std.Antisymm fun x y : α => key x < key y :=
    ⟨fun x y hxy hyx => absurd hyx (String.lt_asymm hxy)⟩
  have : Std.Irrefl fun x y : α => key x < key y := ⟨fun x => String.lt_irrefl (key x)⟩
  exact List.Pairwise.eq_of_mem_iff hxs hys h

namespace Session

/-- The operation `o` is about the node at `full`, which a complaint about the way names as `path`. -/
inductive Inspects (s : Session) : Operation → PathArg → String → Prop where
  | stat (path : PathArg) : Inspects s (.stat path) path (s.resolve path)
  | list (path : PathArg) (hidden : Bool) : Inspects s (.list path hidden) path (s.resolve path)
  | read (path : PathArg) : Inspects s (.read path) path (s.resolve path)
  | changeDirectory (path : PathArg) : Inspects s (.changeDirectory path) path (s.resolve (orHome path))

/-- The node `n` gives an operation its answer; a session that goes there has another working directory. -/
inductive Grants (s : Session) (n : Node) : Operation → Answer → Session → Prop where
  | stat (path : PathArg) : Grants s n (.stat path) (.node n) s
  | list {path : PathArg} {hidden : Bool} {es : List Node} : n.isDir = true → s.subject.Has .read n →
      s.subject.Has .execute n → es.Pairwise (·.name < ·.name) →
      (∀ e, e ∈ es ↔ n.child? e.name = some e ∧ (hidden = true ∨ e.name.toList.head? ≠ some '.')) →
      Grants s n (.list path hidden) (.nodes es) s
  | read {path : PathArg} {i : Info} {content : String} : n = .file i content → s.subject.Has .read n →
      Grants s n (.read path) (.text content) s
  | changeDirectory {path : PathArg} : n.isDir = true → s.subject.Has .execute n →
      Grants s n (.changeDirectory path) (.text (s.resolve (orHome path))) { s with cwd := s.resolve (orHome path) }

inductive Denies (s : Session) (n : Node) : Operation → Attempt → Obstacle → Prop where
  | listFile {path : PathArg} {hidden : Bool} : n.isDir = false →
      Denies s n (.list path hidden) (.reach (path.shown (s.resolve path))) .notADirectory
  | listClosed {path : PathArg} {hidden : Bool} : n.isDir = true →
      ¬(s.subject.Has .read n ∧ s.subject.Has .execute n) → Denies s n (.list path hidden) (.list path.text) .denied
  | readDirectory {path : PathArg} : n.isDir = true → Denies s n (.read path) (.reach path.text) .isADirectory
  | readClosed {path : PathArg} : n.isDir = false → ¬s.subject.Has .read n →
      Denies s n (.read path) (.reach path.text) .denied
  | goToFile {path : PathArg} : n.isDir = false →
      Denies s n (.changeDirectory path) (.reach (path.shown (s.resolve (orHome path)))) .notADirectory
  | goToClosed {path : PathArg} : n.isDir = true → ¬s.subject.Has .execute n →
      Denies s n (.changeDirectory path) (.reach path.text) .denied

/-- An operation follows a path and leaves the rest to the node that it reaches. -/
structure Verdict (s : Session) (o : Operation) (path : PathArg) (full : String) (after : Session)
    (verdict : Node → Except Fault Answer) : Prop where
  apply : s.apply o = (s.reach full path >>= verdict, if (s.reach full path >>= verdict).isOk then after else s)
  grants : ∀ {n a t}, n.WellFormed → s.Grants n o a t → verdict n = .ok a ∧ t = after
  denies : ∀ {n attempt b}, n.WellFormed → s.Denies n o attempt b →
    verdict n = .error (.refused (.obstructed attempt b))
  total : ∀ {n}, n.WellFormed → (∃ a, s.Grants n o a after) ∨ ∃ attempt b, s.Denies n o attempt b

variable {s : Session} {o : Operation} {path : PathArg} {full : String}

theorem map_look_run {α : Type} (g : α → Answer) (see : Session → Except Fault α) (s : Session) :
    (g <$> Update.look see).run s = (g <$> see s, s) := by
  rw [Update.run_map, Update.run_look]
  cases see s <;> rfl

theorem apply_look {α : Type} {g : α → Answer} {see : Session → Except Fault α} {f : Node → Except Fault α}
    (hSteps : steps o = g <$> Update.look see) (hSee : see s = s.reach full path >>= f) :
    s.apply o = (s.reach full path >>= fun n => g <$> f n,
      if (s.reach full path >>= fun n => g <$> f n).isOk then s else s) := by
  rw [apply, hSteps, map_look_run, hSee, ite_self, map_bind]

theorem verdict_stat (path : PathArg) : ∃ verdict, s.Verdict (.stat path) path (s.resolve path) s verdict := by
  refine ⟨_, apply_look rfl (bind_pure _).symm, ?_, nofun, fun {n} _ => .inl ⟨_, .stat path⟩⟩
  intro n a t _ hGrants
  cases hGrants
  exact ⟨rfl, rfl⟩

theorem verdict_read (path : PathArg) : ∃ verdict, s.Verdict (.read path) path (s.resolve path) s verdict := by
  refine ⟨_, apply_look rfl rfl, ?_, ?_, ?_⟩
  · intro n a t hn hGrants
    cases hGrants with
    | read hFile hRead =>
      subst hFile
      rw [Subject.may_eq_ok_true hn.info_valid hRead]
      exact ⟨rfl, rfl⟩
  · intro n attempt b hn hDenies
    cases hDenies with
    | readDirectory hDir =>
      cases n with
      | file i content => cases hDir
      | dir i es => rfl
    | readClosed hFile hClosed =>
      cases n with
      | file i content =>
        rw [Subject.may_eq_ok_false hn.info_valid hClosed]
        rfl
      | dir i es => cases hFile
  · intro n _
    cases hKind : n.isDir with
    | true => exact .inr ⟨_, _, .readDirectory hKind⟩
    | false =>
      obtain ⟨i, content, rfl⟩ := Node.exists_file (Node.kind_eq_file_iff.mpr hKind)
      by_cases hRead : s.subject.Has .read (.file i content)
      · exact .inl ⟨_, .read rfl hRead⟩
      · exact .inr ⟨_, _, .readClosed hKind hRead⟩

theorem mem_shown_iff {n e : Node} (hn : n.WellFormed) (hidden : Bool) :
    e ∈ (n.entries.filter fun e => hidden || e.name.toList.head? != some '.') ↔
      n.child? e.name = some e ∧ (hidden = true ∨ e.name.toList.head? ≠ some '.') := by
  rw [List.mem_filter, Node.child?, Keyed.find?_eq_some_iff hn.ordered]
  simp

theorem reachDirectory_bind {α : Type} (f : Node → Except Fault α) : s.reachDirectory full path >>= f =
    s.reach full path >>= fun n =>
      if n.isDir then f n else .error (.refused (.obstructed (.reach (path.shown full)) .notADirectory)) := by
  unfold reachDirectory
  rw [bind_assoc]
  congr 1
  funext n
  cases n.isDir <;> rfl

theorem verdict_list (path : PathArg) (hidden : Bool) :
    ∃ verdict, s.Verdict (.list path hidden) path (s.resolve path) s verdict := by
  refine ⟨_, apply_look rfl (reachDirectory_bind _), ?_, ?_, ?_⟩
  · intro n a t hn hGrants
    cases hGrants with
    | @list _ _ es hDir hRead hSearch hOrder hMem =>
      have hes : es = n.entries.filter fun e => hidden || e.name.toList.head? != some '.' :=
        Keyed.Ordered.eq_of_mem_iff hOrder (List.Pairwise.filter _ hn.ordered) fun e =>
          (hMem e).trans (mem_shown_iff hn hidden).symm
      have hMay : s.subject.mayAll n [.read, .execute] = .ok true := by
        simp [Subject.mayAll_eq hn.info_valid, hRead, hSearch]
      rw [if_pos hDir, hMay, hes]
      exact ⟨rfl, rfl⟩
  · intro n attempt b hn hDenies
    cases hDenies with
    | listFile hFile =>
      rw [hFile]
      rfl
    | listClosed hDir hClosed =>
      have hMay : s.subject.mayAll n [.read, .execute] = .ok false := by
        simpa [Subject.mayAll_eq hn.info_valid] using hClosed
      rw [if_pos hDir, hMay]
      rfl
  · intro n hn
    cases hKind : n.isDir with
    | false => exact .inr ⟨_, _, .listFile hKind⟩
    | true =>
      by_cases hMay : s.subject.Has .read n ∧ s.subject.Has .execute n
      · refine .inl ⟨_, .list hKind hMay.1 hMay.2 ?_ fun e => mem_shown_iff hn hidden⟩
        exact List.Pairwise.filter _ hn.ordered
      · exact .inr ⟨_, _, .listClosed hKind hMay⟩

theorem apply_changeDirectory (path : PathArg) : s.apply (.changeDirectory path) =
    let result := s.reachDirectory (s.resolve (orHome path)) path >>= fun n => do
      if ← s.subject.may .execute n then return Answer.text (s.resolve (orHome path))
      else refuse (.obstructed (.reach path.text) .denied)
    (result, if result.isOk then { s with cwd := s.resolve (orHome path) } else s) := by
  rw [apply, steps, Update.run_map, changeDirectory, Update.run_session_bind, Update.run_lift_bind]
  cases s.reachDirectory (s.resolve (orHome path)) path with
  | error fault => rfl
  | ok n =>
    dsimp only [Result.ok_bind]
    rw [Update.run_lift_bind]
    cases s.subject.may .execute n with
    | error fault => rfl
    | ok may => cases may <;> rfl

theorem verdict_changeDirectory (path : PathArg) : ∃ verdict, s.Verdict (.changeDirectory path) path
    (s.resolve (orHome path)) { s with cwd := s.resolve (orHome path) } verdict := by
  have hRun := apply_changeDirectory (s := s) path
  rw [reachDirectory_bind] at hRun
  refine ⟨_, hRun, ?_, ?_, ?_⟩
  · intro n a t hn hGrants
    cases hGrants with
    | changeDirectory hDir hSearch =>
      rw [if_pos hDir, Subject.may_eq_ok_true hn.info_valid hSearch]
      exact ⟨rfl, rfl⟩
  · intro n attempt b hn hDenies
    cases hDenies with
    | goToFile hFile =>
      rw [hFile]
      rfl
    | goToClosed hDir hClosed =>
      rw [if_pos hDir, Subject.may_eq_ok_false hn.info_valid hClosed]
      rfl
  · intro n _
    cases hKind : n.isDir with
    | false => exact .inr ⟨_, _, .goToFile hKind⟩
    | true =>
      by_cases hSearch : s.subject.Has .execute n
      · exact .inl ⟨_, .changeDirectory hKind hSearch⟩
      · exact .inr ⟨_, _, .goToClosed hKind hSearch⟩

theorem Inspects.verdict (h : s.Inspects o path full) : ∃ after verdict, s.Verdict o path full after verdict := by
  cases h with
  | stat path => exact ⟨_, verdict_stat path⟩
  | list path hidden => exact ⟨_, verdict_list path hidden⟩
  | read path => exact ⟨_, verdict_read path⟩
  | changeDirectory path => exact ⟨_, verdict_changeDirectory path⟩

namespace Verdict

variable {n : Node} {after : Session} {verdict : Node → Except Fault Answer}
  (h : s.Verdict o path full after verdict)

include h

theorem grants_iff (hn : n.WellFormed) {a : Answer} {t : Session} :
    verdict n = .ok a ∧ t = after ↔ s.Grants n o a t := by
  refine ⟨?_, h.grants hn⟩
  rintro ⟨ha, rfl⟩
  rcases h.total hn with ⟨b, hGrants⟩ | ⟨attempt, b, hDenies⟩
  · cases ha.symm.trans (h.grants hn hGrants).1
    exact hGrants
  · cases ha.symm.trans (h.denies hn hDenies)

theorem denies_iff (hn : n.WellFormed) {fault : Fault} :
    verdict n = .error fault ↔ ∃ attempt b, s.Denies n o attempt b ∧ fault = .refused (.obstructed attempt b) := by
  constructor
  · intro hFault
    rcases h.total hn with ⟨a, hGrants⟩ | ⟨attempt, b, hDenies⟩
    · cases hFault.symm.trans (h.grants hn hGrants).1
    · cases hFault.symm.trans (h.denies hn hDenies)
      exact ⟨attempt, b, hDenies, rfl⟩
  · rintro ⟨attempt, b, hDenies, rfl⟩
    exact h.denies hn hDenies

theorem answers_iff (hRoot : s.root.WellFormed) {a : Answer} {t : Session} : s.apply o = (.ok a, t) ↔
    ∃ n, s.subject.Leads s.root (Path.split full) n ∧ s.Grants n o a t := by
  have hRun : s.apply o = (.ok a, t) ↔ s.reach full path >>= verdict = .ok a ∧ t = after := by
    rw [h.apply, Prod.mk.injEq]
    refine and_congr_right fun hOk => ?_
    rw [hOk]
    exact eq_comm
  rw [hRun, Result.bind_eq_ok_iff]
  simp only [reach, Subject.reach_eq_ok_iff_leads hRoot]
  constructor
  · rintro ⟨⟨n, hLeads, ha⟩, ht⟩
    exact ⟨n, hLeads, (h.grants_iff (hRoot.get? hLeads.1)).mp ⟨ha, ht⟩⟩
  · rintro ⟨n, hLeads, hGrants⟩
    obtain ⟨ha, ht⟩ := (h.grants_iff (hRoot.get? hLeads.1)).mpr hGrants
    exact ⟨⟨n, hLeads, ha⟩, ht⟩

theorem fails_iff (hRoot : s.root.WellFormed) {fault : Fault} {t : Session} : s.apply o = (.error fault, t) ↔
    t = s ∧ ∃ attempt b, fault = .refused (.obstructed attempt b) ∧
      (attempt = .reach (path.shown full) ∧ s.subject.StopsAlong s.root (Path.split full) b ∨
        ∃ n, s.subject.Leads s.root (Path.split full) n ∧ s.Denies n o attempt b) := by
  have hRun : s.apply o = (.error fault, t) ↔ t = s ∧ s.reach full path >>= verdict = .error fault := by
    rw [h.apply, Prod.mk.injEq, and_comm]
    refine and_congr_left fun hFault => ?_
    rw [hFault]
    exact eq_comm
  rw [hRun, Result.bind_eq_error_iff]
  refine and_congr_right fun _ => ?_
  simp only [reach, Subject.reach_eq_ok_iff_leads hRoot, Subject.reach_eq_error_iff hRoot]
  constructor
  · rintro (⟨b, hStops, rfl⟩ | ⟨n, hLeads, hFault⟩)
    · exact ⟨_, b, rfl, .inl ⟨rfl, hStops⟩⟩
    · obtain ⟨attempt, b, hDenies, rfl⟩ := (h.denies_iff (hRoot.get? hLeads.1)).mp hFault
      exact ⟨attempt, b, rfl, .inr ⟨n, hLeads, hDenies⟩⟩
  · rintro ⟨attempt, b, rfl, ⟨rfl, hStops⟩ | ⟨n, hLeads, hDenies⟩⟩
    · exact .inl ⟨b, hStops, rfl⟩
    · exact .inr ⟨n, hLeads, h.denies (hRoot.get? hLeads.1) hDenies⟩

end Verdict

theorem eq_of_stopsAlong_of_isAdmin {u : Subject} {n : Node} {ps : List String} {b : Obstacle}
    (hAdmin : u.isAdmin = true) (h : u.StopsAlong n ps b) : b = .missing ∨ b = .notADirectory := by
  obtain ⟨ds, p, rest, d, -, -, hStops⟩ := h
  cases hStops with
  | file => exact .inr rfl
  | closed hDir hClosed => exact absurd (Subject.has_of_isAdmin hAdmin fun _ => hDir) hClosed
  | lacking => exact .inl rfl

theorem eq_of_denies_of_isAdmin {n : Node} {attempt : Attempt} {b : Obstacle} (hAdmin : s.subject.isAdmin = true)
    (h : s.Denies n o attempt b) : b = .notADirectory ∨ b = .isADirectory := by
  cases h with
  | listFile => exact .inl rfl
  | listClosed hDir hClosed =>
    exact absurd ⟨Subject.has_of_isAdmin hAdmin fun _ => hDir, Subject.has_of_isAdmin hAdmin fun _ => hDir⟩ hClosed
  | readDirectory => exact .inr rfl
  | readClosed _ hClosed =>
    have hNever : Access.read ≠ .execute := by decide
    exact absurd (Subject.has_of_isAdmin hAdmin fun hEq => absurd hEq hNever) hClosed
  | goToFile => exact .inl rfl
  | goToClosed hDir hClosed => exact absurd (Subject.has_of_isAdmin hAdmin fun _ => hDir) hClosed

/-- A look at a path, or a step to it, is decided by the first name that does not lead on, or by the node itself.
The administrator is never denied anything. -/
theorem TreeSound.inspection_exact (h : s.TreeSound) (ho : s.Inspects o path full) :
    (∀ a t, s.apply o = (.ok a, t) ↔
      ∃ n, s.subject.Leads s.root (Path.split full) n ∧ s.Grants n o a t) ∧
    (∀ fault t, s.apply o = (.error fault, t) ↔
      t = s ∧ ∃ attempt b, fault = .refused (.obstructed attempt b) ∧
        (attempt = .reach (path.shown full) ∧ s.subject.StopsAlong s.root (Path.split full) b ∨
          ∃ n, s.subject.Leads s.root (Path.split full) n ∧ s.Denies n o attempt b)) ∧
    (s.subject.isAdmin = true → ∀ fault t, s.apply o = (.error fault, t) → ∃ refusal, fault = .refused refusal ∧
      refusal.kind ∈ [ErrorKind.notFound, ErrorKind.notADirectory, ErrorKind.isADirectory]) := by
  obtain ⟨after, verdict, hVerdict⟩ := ho.verdict
  refine ⟨fun a t => hVerdict.answers_iff h.wellFormed, fun fault t => hVerdict.fails_iff h.wellFormed, ?_⟩
  intro hAdmin fault t hRun
  obtain ⟨-, attempt, b, rfl, hCase⟩ := (hVerdict.fails_iff h.wellFormed).mp hRun
  refine ⟨_, rfl, ?_⟩
  rcases hCase with ⟨-, hStops⟩ | ⟨n, -, hDenies⟩
  · rcases eq_of_stopsAlong_of_isAdmin hAdmin hStops with rfl | rfl <;> simp [Refusal.kind, Obstacle.kind]
  · rcases eq_of_denies_of_isAdmin hAdmin hDenies with rfl | rfl <;> simp [Refusal.kind, Obstacle.kind]

/-- What stops the user is the directory that he may not search, though there is nothing in it by that name. -/
theorem inspection_below_closed : ∃ s t, Session.fresh? "user" 0.0 = some s ∧ s.TreeSound ∧
    s.Inspects (.stat (some "/root/a/b")) (some "/root/a/b") "/root/a/b" ∧
    s.apply (.stat (some "/root/a/b")) = (.error (.refused (.obstructed (.reach "/root/a/b") .denied)), t) ∧ t = s ∧
    s.subject.StopsAlong s.root ["root", "a", "b"] .denied := by
  have hRun : (Session.fresh? "user" 0.0).map (fun s => (s.resolve (some "/root/a/b"),
      match (s.apply (.stat (some "/root/a/b"))).1 with
      | .ok _ => none
      | .error fault => some fault)) =
      some ("/root/a/b", some (.refused (.obstructed (.reach "/root/a/b") .denied))) := by
    decide +kernel
  have hSplit : Path.split "/root/a/b" = ["root", "a", "b"] := by decide
  obtain ⟨s, hFresh, hDenied⟩ := Option.map_eq_some_iff.mp hRun
  obtain ⟨hResolve, hFault⟩ := Prod.mk.inj hDenied
  have hSound : s.TreeSound := (Reached.start hFresh).inv.sound.tree
  have hInspects := Inspects.stat (s := s) (some "/root/a/b")
  rw [hResolve] at hInspects
  cases hApply : s.apply (.stat (some "/root/a/b")) with
  | mk result t =>
    rw [hApply] at hFault
    cases result with
    | ok a => cases hFault
    | error fault =>
      cases hFault
      obtain ⟨ht, attempt, b, hRefusal, hCase⟩ := ((hSound.inspection_exact hInspects).2.1 _ t).mp hApply
      cases hRefusal
      rcases hCase with ⟨-, hStops⟩ | ⟨n, -, hDenies⟩
      · rw [hSplit] at hStops
        exact ⟨s, t, hFresh, hSound, hInspects, hApply, ht, hStops⟩
      · cases hDenies

end Session

end VirtualShell
