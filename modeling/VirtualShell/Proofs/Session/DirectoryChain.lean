import VirtualShell.Proofs.Path.Resolution
import VirtualShell.Proofs.Session.Descent
import VirtualShell.Proofs.Session.Removal

/-!
# Chains of directories

To make a directory with those above it is to go down as far as there are directories, and to put the rest into the last
one of them. Nothing else happens to the tree, and whoever has made a chain of directories can go down to its end, so
that making it again changes nothing.
-/
namespace VirtualShell
set_option autoImplicit false

/-- Rights do not depend on the time of change. -/
theorem Subject.may_touch (u : Subject) (a : Access) (time : Float) (n : Node) :
    u.may a (n.touch time) = u.may a n := by
  cases n <;> rfl

theorem Node.SameAt.may_eq {time : Float} {touched : List (List String)} {n m k : Node} {qs : List String}
    (h : SameAt time touched n m qs) (hk : m.get? qs = some k) :
    ∃ e, n.get? qs = some e ∧ ∀ (u : Subject) (a : Access), u.may a k = u.may a e := by
  rw [SameAt, ownAt, hk, Option.map_some] at h
  obtain ⟨own, hOwn, hSame⟩ := Option.map_eq_some_iff.mp h.symm
  obtain ⟨e, he, rfl⟩ := Option.map_eq_some_iff.mp hOwn
  refine ⟨e, he, fun u a => ?_⟩
  calc u.may a k = u.may a k.bare := (Subject.may_congr (info_bare k) (isDir_bare k)).symm
    _ = u.may a e.bare := by
      rw [← hSame]
      split
      · exact u.may_touch a time e.bare
      · rfl
    _ = u.may a e := Subject.may_congr (info_bare e) (isDir_bare e)

namespace Session

open Update

/-- `t` is the session `s` after the directories on the way `parts` below the one at `deepest` were made. -/
structure Furnished (s : Session) (parts deepest : List String) (t : Session) : Prop where
  isPrefix : deepest <+: parts
  present : s.root.kindAt deepest = some .dir
  absent : ∀ qs, qs <+: parts → deepest.length < qs.length → s.root.get? qs = none
  /-- What was missing is new, and each directory holds the next one and nothing else. -/
  made : ∀ ks q rest, parts = ks ++ q :: rest → deepest.length ≤ ks.length → ∃ es,
    t.root.get? (ks ++ [q]) = some (.dir { name := q, permissions := "rwxr-xr-x", owner := s.username
                                           group := s.primaryGroup, modified := s.now } es) ∧
      es.map Node.name = rest.take 1
  /-- All others are by themselves what they were, but for the time of change of the directory that got an entry. -/
  elsewhere : ∀ qs, ¬(qs <+: parts ∧ deepest.length < qs.length) →
    Node.SameAt s.now (if deepest = parts then [] else [deepest]) s.root t.root qs
  same : t = { s with root := t.root }
  unchanged : deepest = parts → t = s

variable {s t : Session} {u : Subject} {path : PathArg} {n m : Node} {text : String} {parents : Bool}
  {plan : DirectoryPlan} {place ps : List String} {p : String}

theorem planDirectories_enters {i : Info} {es : List Node} (hMay : u.may .execute n = .ok true)
    (hChild : n.child? p = some (.dir i es)) : planDirectories u text true place n (p :: ps) =
      planDirectories u text true (place ++ [p]) (.dir i es) ps := by
  rw [planDirectories, hMay, Result.ok_bind, if_pos rfl, hChild]
  simp

/-- Where all is there already nothing is planned. -/
theorem planDirectories_eq_present (hSearch : ∀ ds rest d, ps = ds ++ rest → rest ≠ [] → n.get? ds = some d →
    u.may .execute d = .ok true) (hDir : n.kindAt ps = some .dir) :
    planDirectories u text true place n ps = .ok .present := by
  induction ps generalizing place n with
  | nil => rfl
  | cons p ps ih =>
    rw [Node.kindAt_cons] at hDir
    obtain ⟨e, he, hDir⟩ := Option.bind_eq_some_iff.mp hDir
    have hEntry : e.kindAt [] = some .dir := by
      by_cases hLast : ps = []
      · rwa [hLast] at hDir
      · exact Node.kindAt_of_ne (List.nil_prefix) (Ne.symm hLast) (by rw [hDir]; exact Option.some_ne_none _)
    cases e with
    | file i c => cases hEntry
    | dir i es =>
      rw [planDirectories_enters (hSearch [] (p :: ps) n rfl (List.cons_ne_nil p ps) rfl) he]
      refine ih (fun ds rest d hps hRest hd => hSearch (p :: ds) rest d (by rw [hps]; rfl) hRest ?_) hDir
      rw [Node.get?_cons, he]
      exact hd

theorem kindAt_of_planDirectories (hDir : n.isDir = true)
    (h : planDirectories u text true place n ps = .ok .present) : n.kindAt ps = some .dir := by
  induction ps generalizing place n with
  | nil => exact Node.kindAt_of_get? rfl hDir
  | cons p ps ih =>
    rw [planDirectories] at h
    obtain ⟨may, -, h⟩ := Result.exists_of_bind_ok h
    cases may with
    | false => cases h
    | true =>
      rw [if_pos rfl] at h
      split at h
      · split at h <;> cases h
      · cases h
      · rename_i i es hChild
        rw [Node.kindAt_cons, hChild]
        exact ih rfl (by simpa using h)

/-- Without those above it a directory is made where all but the last are there. -/
theorem planDirectories_alone_iff (hne : ps ≠ []) :
    planDirectories u text false place n ps = .ok plan ↔ planDirectories u text true place n ps = .ok plan ∧
      ∃ deepest d p, plan = .missing deepest d [p] := by
  induction ps generalizing place n with
  | nil => exact absurd rfl hne
  | cons p ps ih =>
    rw [planDirectories, planDirectories]
    cases u.may .execute n with
    | error fault => simp [bind, Except.bind]
    | ok may =>
      rw [Result.ok_bind, Result.ok_bind]
      cases may with
      | false => simp [refuse]
      | true =>
        rw [if_pos rfl, if_pos rfl]
        cases hChild : n.child? p with
        | none =>
          cases ps with
          | nil =>
            simp only [List.isEmpty_nil, Bool.not_true, Bool.false_and, Bool.false_eq_true, if_false]
            refine (and_iff_left_of_imp ?_).symm
            rintro ⟨⟩
            exact ⟨place, n, p, rfl⟩
          | cons q qs =>
            -- more is missing than the last directory
            simp only [List.isEmpty_cons, Bool.not_false, Bool.and_true, Bool.not_true, Bool.and_false, if_true,
              Bool.false_eq_true, if_false]
            constructor
            · intro hRefused
              cases hRefused
            · rintro ⟨⟨⟩, deepest, d, r, hPlan⟩
              cases hPlan
        | some e =>
          cases e with
          | file i c => simp [refuse]
          | dir i es =>
            cases ps with
            | nil =>
              -- the last directory is there, which is an obstacle only if those above are not made as well
              simp only [List.isEmpty_nil, Bool.not_false, Bool.and_true, Bool.not_true, Bool.and_false, if_true,
                Bool.false_eq_true, if_false, planDirectories]
              constructor
              · intro hRefused
                cases hRefused
              · rintro ⟨⟨⟩, deepest, d, r, hPlan⟩
                cases hPlan
            | cons q qs => simpa using ih (List.cons_ne_nil q qs)

def Executes (s : Session) (path : PathArg) (plan : DirectoryPlan) (t : Session) : Prop :=
  match plan with
  | .present | .missing _ _ [] => t = s
  | .missing place n (p :: ps) => s.requireModifiable n (.makeDirectory path.text) = .ok () ∧
      t = s.addEntry (Path.ofParts place) (s.newChain p ps)

theorem createDirectory_run_iff {target : String} : (createDirectory path parents).run s = (.ok target, t) ↔
    s.requireWritePath path = .ok target ∧ ∃ plan,
      planDirectories s.subject path.text parents [] s.root (Path.split target) = .ok plan ∧
      s.Executes path plan t := by
  constructor
  · exact (createDirectory_ends s path parents).answer target t
  · rintro ⟨hTarget, plan, hPlan, hExecutes⟩
    have hReturns : (createDirectory path parents).Returns s fun a t' => a = target ∧ t' = t := by
      unfold createDirectory
      refine returns_session_bind (returns_lift_bind hTarget (returns_lift_bind hPlan ?_))
      cases plan with
      | present => exact returns_pure ⟨rfl, hExecutes.symm⟩
      | missing place n rest =>
        cases rest with
        | nil => exact returns_pure ⟨rfl, hExecutes.symm⟩
        | cons p ps =>
          exact returns_lift_bind hExecutes.1 (returns_write_bind (returns_pure ⟨rfl, hExecutes.2.symm⟩))
    obtain ⟨_, _, hRun, rfl, rfl⟩ := hReturns
    exact hRun

theorem name_newChain (s : Session) (p : String) (ps : List String) : (s.newChain p ps).name = p := by
  cases ps <;> rfl

theorem child?_newChain (s : Session) (i : Info) (p q : String) (ps : List String) :
    (Node.dir i [s.newChain p ps]).child? q = if p = q then some (s.newChain p ps) else none := by
  rw [Node.child?, Node.entries, Keyed.find?_cons, name_newChain]
  rfl

/-- Each directory of a new chain holds the next one and nothing else. -/
theorem get?_newChain {i : Info} {ks rest : List String} {q : String} (h : p :: ps = ks ++ q :: rest) :
    ∃ es, (Node.dir i [s.newChain p ps]).get? (ks ++ [q]) = some (s.newDirectory q es) ∧
      es.map Node.name = rest.take 1 := by
  induction ks generalizing i p ps with
  | nil =>
    obtain ⟨rfl, rfl⟩ := List.cons.inj h
    rw [List.nil_append, Node.get?_cons, child?_newChain, if_pos rfl]
    cases ps with
    | nil => exact ⟨[], rfl, rfl⟩
    | cons p' ps => exact ⟨[s.newChain p' ps], rfl, by rw [List.map_singleton, name_newChain]; rfl⟩
  | cons k ks ih =>
    obtain ⟨rfl, hps⟩ := List.cons.inj h
    rw [List.cons_append, Node.get?_cons, child?_newChain, if_pos rfl, Option.bind_some]
    cases ps with
    | nil => cases ks <;> cases hps
    | cons p' ps => exact ih hps

theorem get?_newChain_eq_none {i : Info} {ks : List String} (h : ¬ks <+: p :: ps) :
    (Node.dir i [s.newChain p ps]).get? ks = none := by
  induction ks generalizing i p ps with
  | nil => exact absurd List.nil_prefix h
  | cons k ks ih =>
    rw [Node.get?_cons, child?_newChain]
    split
    · rename_i hk
      subst hk
      have hBelow : ¬ks <+: ps := fun hPrefix => h ((List.prefix_cons_inj p).mpr hPrefix)
      rw [Option.bind_some]
      cases ps with
      | nil =>
        obtain ⟨k, ks, rfl⟩ := List.exists_cons_of_ne_nil (l := ks) (fun hNil => hBelow (hNil ▸ List.nil_prefix))
        rfl
      | cons p' ps => exact ih hBelow
    · rfl

theorem furnished_self (h : s.root.kindAt ps = some .dir) : s.Furnished ps ps s := by
  refine ⟨List.prefix_rfl, h, fun qs hqs hLonger => ?_, fun ks q rest hps hLength => ?_, fun qs _ => ?_, rfl,
    fun _ => rfl⟩
  · exact absurd hLonger (Nat.not_lt.mpr hqs.length_le)
  · rw [hps, List.length_append, List.length_cons] at hLength
    omega
  · rw [if_pos rfl, Node.SameAt]
    simp

section

variable {deepest : List String} (hOrder : s.root.Everywhere Node.Ordered) (hm : s.root.get? deepest = some m)
  (hDir : m.isDir = true) (hParts : Path.AreParts (deepest ++ p :: ps))

include hOrder hm hDir hParts

theorem get?_addChain (i : Info) (rest : List String) :
    (s.addEntry (Path.ofParts deepest) (s.newChain p ps)).root.get? (deepest ++ p :: rest) =
      (Node.dir i [s.newChain p ps]).get? (p :: rest) := by
  have hKind : s.root.kindAt deepest = some .dir := Node.kindAt_of_get? hm hDir
  have hPut := Node.get?_put_below hOrder (s.newChain p ps) s.now hKind rest
  rw [name_newChain] at hPut
  rw [root_addEntry _ hParts.left, hPut, Node.get?_cons, child?_newChain, if_pos rfl, Option.bind_some]

theorem furnished_addChain (hFree : m.child? p = none) :
    s.Furnished (deepest ++ p :: ps) deepest (s.addEntry (Path.ofParts deepest) (s.newChain p ps)) := by
  have hne : deepest ≠ deepest ++ p :: ps := by simp
  have hAbsent (rest : List String) : s.root.get? (deepest ++ p :: rest) = none := by
    rw [Node.get?_append, hm, Option.bind_some, Node.get?_cons, hFree, Option.bind_none]
  refine ⟨List.prefix_append _ _, Node.kindAt_of_get? hm hDir, fun qs hqs hLonger => ?_,
    fun ks q rest hEq hLength => ?_, fun qs hqs => ?_, rfl, fun hEq => absurd hEq hne⟩
  · obtain ⟨rs, rfl⟩ := List.prefix_of_prefix_length_le (List.prefix_append deepest (p :: ps)) hqs
      (Nat.le_of_lt hLonger)
    rcases List.prefix_cons_iff.mp ((List.prefix_append_right_inj deepest).mp hqs) with rfl | ⟨rest, rfl, -⟩
    · rw [List.append_nil] at hLonger
      exact absurd hLonger (Nat.lt_irrefl _)
    · exact hAbsent rest
  · obtain ⟨js, rfl⟩ := List.prefix_of_prefix_length_le (List.prefix_append deepest (p :: ps))
      ⟨q :: rest, hEq.symm⟩ hLength
    rw [List.append_assoc, List.append_cancel_left_eq] at hEq
    obtain ⟨es, hChain, hNames⟩ := get?_newChain (s := s) (i := m.info) hEq
    refine ⟨es, ?_, hNames⟩
    obtain ⟨rs, hrs⟩ : ∃ rs, js ++ [q] = p :: rs := by
      cases js with
      | nil =>
        cases hEq
        exact ⟨[], rfl⟩
      | cons k js =>
        cases hEq
        exact ⟨js ++ [q], rfl⟩
    rw [List.append_assoc, hrs, get?_addChain hOrder hm hDir hParts m.info, ← hrs]
    exact hChain
  · rw [if_neg hne]
    by_cases hPlace : deepest ++ [p] <+: qs
    · -- what is below the first new directory, but not on the way, is neither there before nor afterwards
      obtain ⟨rest, rfl⟩ := hPlace
      rw [List.append_assoc, List.singleton_append] at hqs ⊢
      have hOff : ¬p :: rest <+: p :: ps := by
        intro hPrefix
        refine hqs ⟨(List.prefix_append_right_inj deepest).mpr hPrefix, ?_⟩
        rw [List.length_append, List.length_cons]
        omega
      rw [Node.SameAt, Node.ownAt, Node.ownAt, hAbsent, get?_addChain hOrder hm hDir hParts m.info,
        get?_newChain_eq_none hOff]
      rfl
    · rw [root_addEntry _ hParts.left]
      exact Node.sameAt_put hOrder (s.newChain p ps) s.now (by rwa [name_newChain])

end

/-- An access that the first triad grants is granted to the owner. -/
theorem may_of_own {a : Access} (hOwner : n.info.owner = s.username)
    (hLetter : (n.info.permissions.toList.take 3)[a.place]? = some a.letter) : s.subject.may a n = .ok true := by
  have hMem : a.letter ∈ n.info.permissions.toList := List.mem_of_mem_take (List.mem_of_getElem? hLetter)
  unfold Subject.may
  split
  · cases a with
    | execute => simpa using .inr hMem
    | read => rfl
    | write => rfl
  · have hOwns : s.subject.owns n.info = true := by
      rw [Subject.owns, subject_username, hOwner]
      exact beq_self_eq_true s.username
    rw [Subject.triad, if_pos hOwns, hLetter]
    simp

/-- Whoever makes a directory may search it. -/
theorem may_search_newDirectory (s : Session) (name : String) (es : List Node) :
    s.subject.may .execute (s.newDirectory name es) = .ok true := by
  refine may_of_own rfl ?_
  change ("rwxr-xr-x".toList.take 3)[Access.execute.place]? = _
  decide

namespace Furnished

variable {parts deepest qs : List String} (h : s.Furnished parts deepest t)

include h

theorem prefix_deepest (hqs : qs <+: parts) (hLength : qs.length ≤ deepest.length) : qs <+: deepest :=
  List.prefix_of_prefix_length_le hqs h.isPrefix hLength

theorem exists_made (hqs : qs <+: parts) (hLonger : deepest.length < qs.length) :
    ∃ q es, t.root.get? qs = some (s.newDirectory q es) := by
  rcases List.eq_nil_or_concat qs with rfl | ⟨ks, q, rfl⟩
  · exact absurd hLonger (Nat.not_lt_zero _)
  · rw [List.concat_eq_append] at hqs hLonger ⊢
    obtain ⟨rest, rfl⟩ := hqs
    rw [List.length_append, List.length_singleton] at hLonger
    obtain ⟨es, hes, -⟩ := h.made ks q rest (by simp) (Nat.le_of_lt_succ hLonger)
    exact ⟨q, es, hes⟩

theorem kindAt_eq (hqs : qs <+: parts) : t.root.kindAt qs = some .dir := by
  rcases Nat.lt_or_ge deepest.length qs.length with hLonger | hLength
  · obtain ⟨q, es, hMade⟩ := h.exists_made hqs hLonger
    rw [Node.kindAt, hMade]
    rfl
  · rw [(h.elsewhere qs fun hNew => absurd hNew.2 (Nat.not_lt.mpr hLength)).kindAt_eq]
    by_cases hDeepest : qs = deepest
    · rw [hDeepest]
      exact h.present
    · exact Node.kindAt_of_ne (h.prefix_deepest hqs hLength) hDeepest (by rw [h.present]; exact Option.some_ne_none _)

theorem new_iff : s.root.get? qs = none ∧ t.root.get? qs ≠ none ↔ qs <+: parts ∧ deepest.length < qs.length := by
  constructor
  · rintro ⟨hBefore, hAfter⟩
    by_contra hOld
    exact hAfter ((h.elsewhere qs hOld).get?_eq_none hBefore)
  · rintro ⟨hqs, hLonger⟩
    obtain ⟨q, es, hMade⟩ := h.exists_made hqs hLonger
    refine ⟨h.absent qs hqs hLonger, ?_⟩
    rw [hMade]
    exact Option.some_ne_none _

/-- There is one new place if and only if one directory was missing. -/
theorem existsUnique_iff : (∃! qs, s.root.get? qs = none ∧ t.root.get? qs ≠ none) ↔
    parts.length = deepest.length + 1 := by
  simp only [h.new_iff]
  constructor
  · rintro ⟨qs, ⟨hqs, hLonger⟩, hUnique⟩
    -- the whole way and the way to the first new directory are both new, and so they are the same
    have hAll := hUnique parts ⟨List.prefix_rfl, Nat.lt_of_lt_of_le hLonger hqs.length_le⟩
    have hFirst := hUnique (parts.take (deepest.length + 1)) ⟨List.take_prefix _ _, by
      have hLength := hqs.length_le
      rw [List.length_take]
      omega⟩
    have hLength := congrArg List.length (hFirst.trans hAll.symm)
    rw [hAll] at hLength ⊢
    rw [List.length_take] at hLength
    omega
  · intro hLength
    refine ⟨parts, ⟨List.prefix_rfl, by omega⟩, ?_⟩
    rintro qs ⟨hqs, hLonger⟩
    exact hqs.eq_of_length_le (by omega)

theorem searchable (hSearch : s.Searchable parts) : t.Searchable parts := by
  intro ds rest d hParts hRest hd
  have hSubject : t.subject = s.subject := by rw [h.same]; rfl
  have hds : ds <+: parts := ⟨rest, hParts.symm⟩
  rw [hSubject]
  rcases Nat.lt_or_ge deepest.length ds.length with hLonger | hLength
  · obtain ⟨q, es, hMade⟩ := h.exists_made hds hLonger
    cases hd.symm.trans hMade
    exact may_search_newDirectory s q es
  · have hSame := h.elsewhere ds fun hNew => absurd hNew.2 (Nat.not_lt.mpr hLength)
    obtain ⟨e, he, hMay⟩ := hSame.may_eq hd
    rw [hMay]
    exact hSearch ds rest e hParts hRest he

/-- To make the directories again changes nothing, at whatever time. -/
theorem again {target : String} (hTarget : s.requireWritePath path = .ok target)
    (hParts : Path.split target = parts) (hSearch : s.Searchable parts) (time : Float) :
    (createDirectory path true).run { t with now := time } = (.ok target, { t with now := time }) := by
  have hPlan : planDirectories t.subject path.text true [] t.root (Path.split target) = .ok .present := by
    rw [hParts]
    exact planDirectories_eq_present (h.searchable hSearch) (h.kindAt_eq List.prefix_rfl)
  have hAgain : t.requireWritePath path = .ok target := by
    rw [h.same]
    exact hTarget
  exact createDirectory_run_iff.mpr ⟨hAgain, .present, hPlan, rfl⟩

end Furnished

section

variable {target : String} (h : s.TreeSound) (hTarget : s.requireWritePath path = .ok target)

include h hTarget

theorem areParts_of_requireWritePath : Path.AreParts (Path.split target) := by
  rw [(split_of_requireWritePath hTarget).1]
  exact Path.areParts_split (Path.isCanonical_resolve s.home path h.canonical)

/-- A plan finds the whole way there, or its end missing. -/
theorem furnished_of_executes
    (hPlan : planDirectories s.subject path.text true [] s.root (Path.split target) = .ok plan)
    (hExecutes : s.Executes path plan t) : ∃ deepest, s.Furnished (Path.split target) deepest t ∧
      ((Path.split target).length = deepest.length + 1 ↔ ∃ place d p, plan = .missing place d [p]) := by
  cases plan with
  | present =>
    cases hExecutes
    refine ⟨_, furnished_self (kindAt_of_planDirectories h.isDir hPlan), ?_⟩
    simp
  | missing place m rest =>
    obtain ⟨deepest, p, ps, rfl, hParts, hPlace, hm, hDir, hFree⟩ := planDirectories_missing hPlan
    rw [List.nil_append] at hPlace
    subst hPlace
    have hSound := areParts_of_requireWritePath h hTarget
    rw [hParts] at hSound ⊢
    cases hExecutes.2
    refine ⟨place, furnished_addChain h.orderly.ordered hm (hDir h.isDir) hSound hFree, ?_⟩
    simp

end

theorem TreeSound.createDirectory_furnishes (h : s.TreeSound) {target : String}
    (hRun : (createDirectory path true).run s = (.ok target, t)) :
    target = s.resolve path ∧ (∃ deepest, s.Furnished (Path.split target) deepest t) ∧
      ∀ time, (createDirectory path true).run { t with now := time } = (.ok target, { t with now := time }) := by
  obtain ⟨hTarget, plan, hPlan, hExecutes⟩ := createDirectory_run_iff.mp hRun
  obtain ⟨deepest, hFurnished, -⟩ := furnished_of_executes h hTarget hPlan hExecutes
  have hSearch : s.Searchable (Path.split target) :=
    fun ds rest d hParts hRest hd => searchable_of_planDirectories hPlan hParts hRest hd
  exact ⟨(split_of_requireWritePath hTarget).1, ⟨deepest, hFurnished⟩, hFurnished.again hTarget rfl hSearch⟩

theorem TreeSound.createDirectory_alone_iff (h : s.TreeSound) {target : String} :
    (createDirectory path false).run s = (.ok target, t) ↔ (createDirectory path true).run s = (.ok target, t) ∧
      ∃! qs, s.root.get? qs = none ∧ t.root.get? qs ≠ none := by
  rw [createDirectory_run_iff, createDirectory_run_iff]
  constructor
  · rintro ⟨hTarget, plan, hPlan, hExecutes⟩
    obtain ⟨hPlan, hOne⟩ := (planDirectories_alone_iff (split_ne_nil_of_requireWritePath hTarget)).mp hPlan
    obtain ⟨deepest, hFurnished, hLast⟩ := furnished_of_executes h hTarget hPlan hExecutes
    exact ⟨⟨hTarget, plan, hPlan, hExecutes⟩, hFurnished.existsUnique_iff.mpr (hLast.mpr hOne)⟩
  · rintro ⟨⟨hTarget, plan, hPlan, hExecutes⟩, hUnique⟩
    obtain ⟨deepest, hFurnished, hLast⟩ := furnished_of_executes h hTarget hPlan hExecutes
    have hOne := hLast.mp (hFurnished.existsUnique_iff.mp hUnique)
    have hAlone := (planDirectories_alone_iff (split_ne_nil_of_requireWritePath hTarget)).mpr ⟨hPlan, hOne⟩
    exact ⟨hTarget, plan, hAlone, hExecutes⟩

/-- The directories that are missing on a way are made, each in the one before, and nothing else happens, at once or when
they are made again. Without those above it a directory is made if it alone is missing. -/
theorem TreeSound.createDirectory_exact (h : s.TreeSound) (path : PathArg) :
    (∀ target t, (createDirectory path true).run s = (.ok target, t) →
      target = s.resolve path ∧ (∀ qs, qs <+: Path.split target → t.root.kindAt qs = some .dir) ∧
      (∃ deepest, s.Furnished (Path.split target) deepest t) ∧
      ∀ time, (createDirectory path true).run { t with now := time } = (.ok target, { t with now := time })) ∧
    ∀ target t, (createDirectory path false).run s = (.ok target, t) ↔
      (createDirectory path true).run s = (.ok target, t) ∧ ∃! qs, s.root.get? qs = none ∧ t.root.get? qs ≠ none := by
  refine ⟨fun target t hRun => ?_, fun target t => h.createDirectory_alone_iff⟩
  obtain ⟨hTarget, ⟨deepest, hFurnished⟩, hAgain⟩ := h.createDirectory_furnishes hRun
  exact ⟨hTarget, fun qs hqs => hFurnished.kindAt_eq hqs, ⟨deepest, hFurnished⟩, hAgain⟩

/-- Two missing directories are made at once, and nothing happens when they are made again a second later. -/
theorem chain_of_two_made : ∃ s t deepest, Session.fresh? "user" 0.0 = some s ∧ s.TreeSound ∧
    (createDirectory (some "a/b") true).run s = (.ok "/home/user/a/b", t) ∧
    s.Furnished ["home", "user", "a", "b"] deepest t ∧
    (createDirectory (some "a/b") true).run { t with now := 1.0 } = (.ok "/home/user/a/b", { t with now := 1.0 }) := by
  have hRun : (Session.fresh? "user" 0.0).map (fun s =>
      ((createDirectory (some "a/b") true).run s).1.toOption) = some (some "/home/user/a/b") := by
    decide +kernel
  have hSplit : Path.split "/home/user/a/b" = ["home", "user", "a", "b"] := by decide
  obtain ⟨s, hFresh, hMade⟩ := Option.map_eq_some_iff.mp hRun
  have hSound : s.TreeSound := (Reached.start hFresh).inv.sound.tree
  obtain ⟨t, hEnd⟩ := exists_run_eq hMade
  obtain ⟨-, -, ⟨deepest, hFurnished⟩, hAgain⟩ := (hSound.createDirectory_exact (some "a/b")).1 _ t hEnd
  rw [hSplit] at hFurnished
  exact ⟨s, t, deepest, hFresh, hSound, hEnd, hFurnished, hAgain 1.0⟩

end Session

end VirtualShell
