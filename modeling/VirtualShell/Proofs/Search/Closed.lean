import VirtualShell.Proofs.Search.Walk
import VirtualShell.Proofs.Session.Ancestors
import VirtualShell.Proofs.Session.Twin
import VirtualShell.Proofs.Tree.Emptied
import VirtualShell.Search.Find
import VirtualShell.Search.Grep
import VirtualShell.Terminal.Completion

/-!
# Looking around a closed directory

What lies below a directory that the acting user may not search shows in nothing that he can look at: in no
node that he reaches, in no listing, in no search and in no completion. A search sees of a node its own
attributes and its content at most, so that trails are compared by their bare nodes.
-/
namespace VirtualShell
set_option autoImplicit false

variable {u : Subject} {n : Node} {w : Spot}

def Trail.bare (t : Trail) : Trail := ⟨t.nodes.map fun entry => (entry.1, entry.2.bare), t.fault⟩

@[simp] theorem Trail.fault_bare (t : Trail) : t.bare.fault = t.fault := rfl

theorem Trail.bare_andThen (t next : Trail) : (t.andThen next).bare = t.bare.andThen next.bare := by
  obtain ⟨nodes, fault⟩ := t
  cases fault with
  | some fault => rfl
  | none =>
    simp only [andThen, bare, List.map_append]

theorem Subject.not_mayAll_of_closed (h : u.may .execute n ≠ .ok true) : u.mayAll n [.read, .execute] ≠ .ok true :=
  fun hMay => h (may_of_mayAll hMay (by simp))

/-- A directory that may not be entered is all that a walk sees of it. -/
theorem Subject.walk_closed (h : u.may .execute n ≠ .ok true) (path : String) :
    (u.walk path n.bare).bare = (u.walk path n).bare := by
  cases n with
  | file i c => rfl
  | dir i es =>
    have hAll := not_mayAll_of_closed h
    have hSame : u.mayAll (.dir i []) [.read, .execute] = u.mayAll (.dir i es) [.read, .execute] := rfl
    rw [Node.bare, walk, walk, hSame]
    cases hMay : u.mayAll (.dir i es) [.read, .execute] with
    | error fault => rfl
    | ok may =>
      cases may with
      | false => rfl
      | true => exact absurd hMay hAll

theorem Subject.walkList_emptied {es : List Node}
    (h : ∀ e ∈ es, ∀ path, (u.walk path (e.emptied (Spot.enter e.name w))).bare = (u.walk path e).bare)
    (path : String) :
    (u.walkList path (es.map fun e => e.emptied (Spot.enter e.name w))).bare = (u.walkList path es).bare := by
  induction es with
  | nil => rfl
  | cons e es ih =>
    obtain ⟨he, hes⟩ := List.forall_mem_cons.mp h
    rw [List.map_cons, walkList, walkList, Node.name_emptied, Trail.bare_andThen, Trail.bare_andThen, he, ih hes]

theorem Subject.Bars.walk_emptied (h : u.Bars w n) (path : String) :
    (u.walk path (n.emptied w)).bare = (u.walk path n).bare := by
  induction n using Node.induct generalizing w path with
  | file i c => rw [Node.emptied_file]
  | dir i es ih =>
    by_cases hHere : w = some []
    · -- Neither walk goes on from here, whichever entries there are.
      subst hHere
      exact walk_closed (h.closed [] _ rfl rfl) path
    · have hSame := u.mayAll_emptied [.read, .execute] w (.dir i es)
      rw [Node.emptied_dir hHere] at hSame ⊢
      rw [walk, walk, hSame]
      cases u.mayAll (.dir i es) [.read, .execute] with
      | error fault => rfl
      | ok may =>
        cases may with
        | false => rfl
        | true =>
          have hList := u.walkList_emptied (fun e he => ih e he (h.enter he)) path
          dsimp only
          rw [Trail.bare_andThen, Trail.bare_andThen, hList]
          rfl

namespace FindFilters

theorem accepts_bare (f : FindFilters) (now : Float) (n : Node) : f.accepts now n.bare = f.accepts now n := by
  simp only [accepts, Node.name_bare, Node.kind_bare, Node.info_bare]

theorem select_bare (f : FindFilters) (now : Float) (xs : List (String × Node)) :
    f.select now (xs.map fun entry => (entry.1, entry.2.bare)) = f.select now xs := by
  induction xs with
  | nil => rfl
  | cons x xs ih => rw [List.map_cons, select, select, accepts_bare, ih]

end FindFilters

namespace GrepReport

variable {p : Pattern} {invert : Bool}

theorem addFile_bare (r : GrepReport) (shown : String) (n : Node) :
    r.addFile u p invert shown n.bare = r.addFile u p invert shown n := by
  have hMay : u.may .read n.bare = u.may .read n := Subject.may_congr (Node.info_bare n) (Node.isDir_bare n)
  rw [addFile, addFile, hMay, Node.content_bare]

theorem addTrail_bare (r : GrepReport) (t : Trail) : r.addTrail u p invert t.bare = r.addTrail u p invert t := by
  have hFiles : ∀ (xs : List (String × Node)) (r : GrepReport),
      ((xs.map fun entry => (entry.1, entry.2.bare)).filter fun entry => !entry.2.isDir).foldlM
          (fun r entry => r.addFile u p invert entry.1 entry.2) r =
        (xs.filter fun entry => !entry.2.isDir).foldlM (fun r entry => r.addFile u p invert entry.1 entry.2) r := by
    intro xs
    induction xs with
    | nil => intro r; rfl
    | cons x xs ih =>
      intro r
      simp only [List.map_cons, List.filter_cons, Node.isDir_bare]
      cases x.2.isDir with
      | true => exact ih r
      | false => simp only [Bool.not_false, if_true, List.foldlM_cons, addFile_bare, ih]
  simp only [addTrail, Trail.bare, hFiles]

end GrepReport

theorem Update.Twins.run_map {α : Type} {s : Session} {g : Session → Session} {u : Update α}
    (h : Twins s (g s) (fun a t b t' => b = a ∧ t' = g t) u u) : u.run (g s) = (u.run s).map id g := by
  cases h with
  | answer hRun hRun' hPost =>
    obtain ⟨rfl, rfl⟩ := hPost
    rw [hRun, hRun']
    rfl
  | fault fault hRun hRun' =>
    rw [hRun, hRun']
    rfl

namespace Session

def emptied (w : Spot) (s : Session) : Session := { s with root := s.root.emptied w }

/-- There is a directory at the place `ps` that the acting user may not search. -/
def Closed (s : Session) (ps : List String) : Prop :=
  ∃ i es, s.root.get? ps = some (.dir i es) ∧ s.subject.may .execute (.dir i es) ≠ .ok true

@[simp] theorem subject_emptied (w : Spot) (s : Session) : (s.emptied w).subject = s.subject := rfl

@[simp] theorem root_emptied (w : Spot) (s : Session) : (s.emptied w).root = s.root.emptied w := rfl

@[simp] theorem now_emptied (w : Spot) (s : Session) : (s.emptied w).now = s.now := rfl

@[simp] theorem resolve_emptied (w : Spot) (s : Session) (path : PathArg) :
    (s.emptied w).resolve path = s.resolve path := rfl

def spotAt (s : Session) (path : PathArg) (w : Spot) : Spot := w.follow (Path.split (s.resolve path))

@[simp] theorem spotAt_emptied (v w : Spot) (s : Session) (path : PathArg) :
    (s.emptied v).spotAt path w = s.spotAt path w := rfl

/-- Whatever the acting user looks at is the same in both sessions. Nodes are compared without what lies below
the directory at the spot. -/
structure LooksLike (w : Spot) (s s' : Session) : Prop where
  stat path : (s'.stat path).map (Node.emptied (s.spotAt path w)) = (s.stat path).map (Node.emptied (s.spotAt path w))
  list path hidden : (s'.list path hidden).map (List.map fun e => e.emptied (Spot.enter e.name (s.spotAt path w))) =
    (s.list path hidden).map (List.map fun e => e.emptied (Spot.enter e.name (s.spotAt path w)))
  changeDirectory path : ((changeDirectory path).run s').map id (emptied w) =
    ((changeDirectory path).run s).map id (emptied w)
  read path : s'.readFile path = s.readFile path
  find start f : s'.find start f = s.find start f
  grep pattern paths o : s'.grep pattern paths o = s.grep pattern paths o
  complete line : Completion.ofLine s' line = Completion.ofLine s line

variable {s s' : Session} {path : PathArg} {ps : List String}

theorem closed_of_may (hn : s.root.get? ps = some n) (hDir : n.isDir = true)
    (hMay : s.subject.may .execute n = .ok false) : s.Closed ps := by
  cases n with
  | file i c => cases hDir
  | dir i es =>
    refine ⟨i, es, hn, fun hExecute => ?_⟩
    cases hMay.symm.trans hExecute

theorem Closed.bars (h : s.Closed ps) (hOrder : s.root.Everywhere Node.Ordered) :
    s.subject.Bars (some ps) s.root := by
  obtain ⟨i, es, hDir, hClosed⟩ := h
  refine ⟨hOrder, fun qs m hqs hm => ?_⟩
  cases hqs
  cases hDir.symm.trans hm
  exact hClosed

/-- A session that differs only below the directory has it closed as well. -/
theorem Closed.congr (h : s.Closed ps) (hSame : s'.emptied (some ps) = s.emptied (some ps)) : s'.Closed ps := by
  obtain ⟨i, es, hDir, hClosed⟩ := h
  have hSubject : s'.subject = s.subject := by simpa using congrArg subject hSame
  have hRoot : s'.root.emptied (some ps) = s.root.emptied (some ps) := by simpa using congrArg root hSame
  have hBare := Node.get?_emptied_here s'.root ps
  rw [hRoot, Node.get?_emptied_here, hDir] at hBare
  obtain ⟨n, hn, hEq⟩ := Option.map_eq_some_iff.mp hBare.symm
  obtain ⟨es', rfl⟩ := Node.bare_eq_dir hEq
  exact ⟨i, es', hn, hSubject ▸ hClosed⟩

section

variable (h : s.subject.Bars w s.root)

include h

theorem reach_emptied (full : String) (path : PathArg) :
    (s.emptied w).reach full path = (s.reach full path).map (Node.emptied (w.follow (Path.split full))) :=
  h.reach_emptied _ _

theorem stat_emptied (path : PathArg) :
    (s.emptied w).stat path = (s.stat path).map (Node.emptied (s.spotAt path w)) :=
  reach_emptied h _ path

theorem reachDirectory_emptied (full : String) (path : PathArg) :
    (s.emptied w).reachDirectory full path =
      (s.reachDirectory full path).map (Node.emptied (w.follow (Path.split full))) := by
  rw [reachDirectory, reachDirectory, reach_emptied h]
  cases s.reach full path with
  | error fault => rfl
  | ok n =>
    simp only [Except.map, Result.ok_bind, Node.isDir_emptied]
    cases n.isDir <;> rfl

theorem list_emptied (path : PathArg) (hidden : Bool) : (s.emptied w).list path hidden =
    (s.list path hidden).map (List.map fun e => e.emptied (Spot.enter e.name (s.spotAt path w))) := by
  rw [list, list, resolve_emptied, reachDirectory_emptied h, subject_emptied]
  cases hReach : s.reachDirectory (s.resolve path) path with
  | error fault => rfl
  | ok n =>
    have hBars := h.follow (lookup_of_reachDirectory hReach).1
    simp only [Except.map, Result.ok_bind, Subject.mayAll_emptied]
    cases hMay : s.subject.mayAll n [.read, .execute] with
    | error fault => rfl
    | ok may =>
      cases may with
      | false => rfl
      | true =>
        have hAway := hBars.ne_here (Subject.may_of_mayAll hMay (by simp))
        simp only [Result.ok_bind, if_true, Node.entries_emptied hAway, List.filter_map, Function.comp_def,
          Node.name_emptied]
        rfl

theorem changeDirectory_emptied (path : PathArg) : (changeDirectory path).run (s.emptied w) =
    ((changeDirectory path).run s).map id (emptied w) := by
  refine Update.Twins.run_map ?_
  unfold changeDirectory
  refine Update.twins_session_bind ?_
  dsimp only
  rw [resolve_emptied, reachDirectory_emptied h]
  refine Update.twins_bind_map fun n _ => ?_
  rw [subject_emptied, Subject.may_emptied]
  refine Update.twins_bind_same fun may _ => Update.twins_ite_error fun _ => ?_
  exact Update.twins_write ⟨rfl, rfl⟩

theorem readFile_emptied (path : PathArg) : (s.emptied w).readFile path = s.readFile path := by
  rw [readFile, readFile, resolve_emptied, reach_emptied h, subject_emptied]
  cases s.reach (s.resolve path) path with
  | error fault => rfl
  | ok n =>
    simp only [Except.map, Result.ok_bind]
    cases n with
    | file i c => rw [Node.emptied_file]
    | dir i es =>
      obtain ⟨xs, hEmptied⟩ := Node.exists_emptied_dir (w.follow (Path.split (s.resolve path))) i es
      rw [hEmptied]

theorem walk_emptied (start : PathArg) : ((s.emptied w).walk start).bare = (s.walk start).bare := by
  rw [walk_eq, walk_eq, stat_emptied h]
  cases hStat : s.stat start with
  | ok n => exact (h.follow (lookup_of_reach hStat)).walk_emptied _
  | error fault => cases fault <;> rfl

theorem find_emptied (start : PathArg) (f : FindFilters) : (s.emptied w).find start f = s.find start f := by
  have hWalk := walk_emptied h start
  have hFault : ((s.emptied w).walk start).fault = (s.walk start).fault := by
    simpa using congrArg Trail.fault hWalk
  have hSelect : f.select s.now ((s.emptied w).walk start).nodes = f.select s.now (s.walk start).nodes := by
    rw [← f.select_bare s.now (s.walk start).nodes, ← f.select_bare]
    exact congrArg (fun t : Trail => f.select s.now t.nodes) hWalk
  rw [find, find, hFault]
  dsimp only [now_emptied]
  rw [hSelect]

theorem addOperand_emptied (p : Pattern) (o : GrepOptions) (r : GrepReport) (path : String) :
    r.addOperand (s.emptied w) p o path = r.addOperand s p o path := by
  rw [GrepReport.addOperand, GrepReport.addOperand, stat_emptied h]
  cases hStat : s.stat (some path) with
  | error fault => cases fault <;> rfl
  | ok n =>
    have hAdd := congrArg (r.addTrail s.subject p o.invert) (walk_emptied h (some path))
    rw [r.addTrail_bare, r.addTrail_bare] at hAdd
    simp only [Except.map, Node.isDir_emptied, subject_emptied]
    rw [spotAt, hAdd]
    cases n with
    | file i c => rw [Node.emptied_file]
    | dir i es => rfl

theorem grep_emptied (pattern : String) (paths : List String) (o : GrepOptions) :
    (s.emptied w).grep pattern paths o = s.grep pattern paths o := by
  simp only [grep, addOperand_emptied h]

theorem complete_emptied (line : String) : Completion.ofLine (s.emptied w) line = Completion.ofLine s line := by
  have hPath : ∀ word, Completion.path (s.emptied w) word = Completion.path s word := by
    intro word
    rw [Completion.path, Completion.path]
    dsimp only
    rw [list_emptied h]
    cases s.list (some (Completion.splitWord word).1) true with
    | error fault => cases fault <;> rfl
    | ok entries => simp [Except.map, Function.comp_def]
  simp only [Completion.ofLine, hPath]

end

/-- Sessions that differ only in what lies below a directory that the acting user may not search look the same
to him. -/
theorem Closed.looksLike (h : s.Closed ps) (hOrder : s.root.Everywhere Node.Ordered)
    (hOrder' : s'.root.Everywhere Node.Ordered) (hSame : s'.emptied (some ps) = s.emptied (some ps)) :
    LooksLike (some ps) s s' := by
  have hBars : s.subject.Bars (some ps) s.root := h.bars hOrder
  have hBars' : s'.subject.Bars (some ps) s'.root := (h.congr hSame).bars hOrder'
  have hSpot : ∀ path, s'.spotAt path (some ps) = s.spotAt path (some ps) := by
    intro path
    simpa using congrArg (·.spotAt path (some ps)) hSame
  constructor
  · intro path
    calc (s'.stat path).map (Node.emptied (s.spotAt path (some ps)))
      _ = (s'.emptied (some ps)).stat path := by rw [stat_emptied hBars', hSpot]
      _ = (s.emptied (some ps)).stat path := by rw [hSame]
      _ = _ := stat_emptied hBars path
  · intro path hidden
    calc (s'.list path hidden).map (List.map fun e => e.emptied (Spot.enter e.name (s.spotAt path (some ps))))
      _ = (s'.emptied (some ps)).list path hidden := by rw [list_emptied hBars', hSpot]
      _ = (s.emptied (some ps)).list path hidden := by rw [hSame]
      _ = _ := list_emptied hBars path hidden
  · intro path
    rw [← changeDirectory_emptied hBars', hSame, changeDirectory_emptied hBars]
  · intro path
    rw [← readFile_emptied hBars', hSame, readFile_emptied hBars]
  · intro start f
    rw [← find_emptied hBars', hSame, find_emptied hBars]
  · intro pattern paths o
    rw [← grep_emptied hBars', hSame, grep_emptied hBars]
  · intro line
    rw [← complete_emptied hBars', hSame, complete_emptied hBars]

theorem emptied_modifyAt (s : Session) (directory : String) (g : List Node → List Node) :
    (s.modifyAt directory (Node.mapEntries g)).emptied (some (Path.split directory)) =
      s.emptied (some (Path.split directory)) := by
  unfold modifyAt emptied
  exact congrArg (fun root => { s with root := root }) (Node.emptied_modify (Path.split directory) s.root)

theorem closed_admin_home (hFresh : Session.fresh? "user" 0.0 = some s) : s.Closed ["home", "admin"] := by
  have hHome : (Session.fresh? "user" 0.0).map (fun s => (s.root.get? ["home", "admin"]).map fun n =>
      (n.isDir, (s.subject.may .execute n).toOption)) = some (some (true, some false)) := by
    decide +kernel
  rw [hFresh, Option.map_some, Option.some.injEq] at hHome
  obtain ⟨n, hn, hMay⟩ := Option.map_eq_some_iff.mp hHome
  obtain ⟨hDir, hMay⟩ := Prod.mk.inj hMay
  exact closed_of_may hn hDir (Result.toOption_eq_some_iff.mp hMay)

/-- The notes in the home of `admin` could be missing, and nobody else would see it. -/
theorem admin_home_looksLike : ∃ s s' : Session, Session.fresh? "user" 0.0 = some s ∧
    s' = s.modifyAt "/home/admin" (·.dropEntry "notes.txt") ∧
      (s.lookup "/home/admin/notes.txt").isSome = true ∧ (s'.lookup "/home/admin/notes.txt").isSome = false ∧
        s.Closed ["home", "admin"] ∧ s.root.Everywhere Node.Ordered ∧ s'.root.Everywhere Node.Ordered ∧
          s'.emptied (some ["home", "admin"]) = s.emptied (some ["home", "admin"]) ∧
            LooksLike (some ["home", "admin"]) s s' := by
  have hFacts : (Session.fresh? "user" 0.0).map (fun s => ((s.lookup "/home/admin/notes.txt").isSome,
      ((s.modifyAt "/home/admin" (·.dropEntry "notes.txt")).lookup "/home/admin/notes.txt").isSome)) =
        some (true, false) := by
    decide +kernel
  obtain ⟨s, hFresh, hFacts⟩ := Option.map_eq_some_iff.mp hFacts
  obtain ⟨hThere, hGone⟩ := Prod.mk.inj hFacts
  have hClosed := closed_admin_home hFresh
  have hTree : s.root.WellFormed := (Reached.start hFresh).inv.sound.1.wellFormed
  have hTree' : (s.modifyAt "/home/admin" (·.dropEntry "notes.txt")).root.WellFormed :=
    hTree.modify (Node.name_mapEntries _) (fun m hm => hm.dropEntry "notes.txt") _
  have hSame := emptied_modifyAt s "/home/admin" (Keyed.erase Node.name "notes.txt")
  rw [show Path.split "/home/admin" = ["home", "admin"] by decide +kernel] at hSame
  exact ⟨s, _, hFresh, rfl, hThere, hGone, hClosed, hTree.everywhere_ordered, hTree'.everywhere_ordered, hSame,
    hClosed.looksLike hTree.everywhere_ordered hTree'.everywhere_ordered hSame⟩

end Session

end VirtualShell
