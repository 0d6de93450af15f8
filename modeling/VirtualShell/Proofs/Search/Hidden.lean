import VirtualShell.Proofs.Search.Walk
import VirtualShell.Proofs.Session.Twin
import VirtualShell.Proofs.Session.Unreadable
import VirtualShell.Search.Find
import VirtualShell.Search.Grep

/-!
# Searching around a hidden file

A walk enters the directories that the user may read and search, and a search looks into the files that he
may read. What is hidden from him is therefore listed at most, so that its content is found by no search.
-/
namespace VirtualShell
set_option autoImplicit false

variable {u : Subject} {n : Node} {w : Spot} {text : String}

/-- Two nodes with their paths that differ at most in the content of a file that is hidden from the user. -/
abbrev Subject.Echoes (u : Subject) (text : String) (x y : String × Node) : Prop :=
  y.1 = x.1 ∧ ∃ v, y.2 = x.2.refill text v ∧ u.Hides v x.2

structure Trail.Echoes (u : Subject) (text : String) (t t' : Trail) : Prop where
  nodes : List.Forall₂ (u.Echoes text) t.nodes t'.nodes
  fault : t'.fault = t.fault

namespace Trail

theorem echoes_empty : Trail.empty.Echoes u text Trail.empty := ⟨.nil, rfl⟩

theorem echoes_one (path : String) (fault : Option Fault) (h : u.Hides w n) :
    Trail.Echoes u text ⟨[(path, n)], fault⟩ ⟨[(path, n.refill text w)], fault⟩ :=
  ⟨.cons ⟨rfl, w, rfl, h⟩ .nil, rfl⟩

theorem Echoes.andThen {t t' next next' : Trail} (h : t.Echoes u text t') (hNext : next.Echoes u text next') :
    (t.andThen next).Echoes u text (t'.andThen next') := by
  obtain ⟨nodes, fault⟩ := t
  obtain ⟨nodes', fault'⟩ := t'
  obtain rfl : fault' = fault := h.fault
  cases fault' with
  | some fault => exact h
  | none => exact ⟨List.rel_append h.nodes hNext.nodes, hNext.fault⟩

end Trail

theorem Subject.walk_echoes (h : u.Hides w n) (path : String) :
    (u.walk path n).Echoes u text (u.walk path (n.refill text w)) := by
  induction n using Node.induct generalizing w path with
  | file i c =>
    have hOne : Trail.Echoes u text ⟨[(path, .file i c)], none⟩ ⟨[(path, (Node.file i c).refill text w)], none⟩ :=
      Trail.echoes_one path none h
    rw [Node.refill_file] at hOne ⊢
    exact hOne
  | dir i es ih =>
    have hOne : ∀ fault, Trail.Echoes u text ⟨[(path, .dir i es)], fault⟩
        ⟨[(path, (Node.dir i es).refill text w)], fault⟩ := fun fault => Trail.echoes_one path fault h
    have hSame := u.mayAll_refill [.read, .execute] text w (.dir i es)
    rw [Node.refill_dir] at hOne hSame ⊢
    rw [walk, walk, hSame]
    cases hMay : u.mayAll (.dir i es) [.read, .execute] with
    | error fault => exact hOne (some fault)
    | ok may =>
      cases may with
      | false => exact hOne none
      | true =>
        have hMayRun : u.may .execute (.dir i es) = .ok true := may_of_mayAll hMay (by simp)
        refine (hOne none).andThen ?_
        have hBelow : ∀ e ∈ es, u.Hides (Spot.enter e.name w) e := fun e he => h.enter hMayRun he
        -- From here on the entries are walked one by one, and the directory itself is out of the picture.
        clear h hOne hSame hMay hMayRun
        induction es with
        | nil => exact Trail.echoes_empty
        | cons e es ihList =>
          rw [List.map_cons, walkList, walkList, Node.name_refill]
          refine (ih e List.mem_cons_self (hBelow e List.mem_cons_self) _).andThen ?_
          refine ihList (fun x hx => ih x (List.mem_cons_of_mem e hx)) fun x hx => ?_
          exact hBelow x (List.mem_cons_of_mem e hx)

namespace FindFilters

theorem accepts_refill (f : FindFilters) (now : Float) (text : String) (w : Spot) (n : Node) :
    f.accepts now (n.refill text w) = f.accepts now n := by
  simp only [accepts, Node.name_refill, Node.kind_refill, Node.info_refill]

theorem select_echoes {xs ys : List (String × Node)} (f : FindFilters) (now : Float)
    (h : List.Forall₂ (u.Echoes text) xs ys) : f.select now ys = f.select now xs := by
  induction h with
  | nil => rfl
  | @cons x y xs ys hHead _ ih =>
    obtain ⟨path, n⟩ := x
    obtain ⟨path', n'⟩ := y
    obtain ⟨hPath, v, hNode, -⟩ : path' = path ∧ ∃ v, n' = n.refill text v ∧ u.Hides v n := hHead
    rw [hPath, hNode, select, select, accepts_refill, ih]

end FindFilters

namespace GrepReport

variable {p : Pattern} {invert : Bool}

/-- A file that may be read is not the hidden one. -/
theorem addFile_refill (r : GrepReport) (shown : String) (h : u.Hides w n) (hFile : n.isDir = false) :
    r.addFile u p invert shown (n.refill text w) = r.addFile u p invert shown n := by
  by_cases hHere : w = some []
  · have hMay : u.may .read n ≠ .ok true := h [] hHere
    rw [addFile, addFile, Subject.may_refill]
    cases hRead : u.may .read n with
    | error fault => rfl
    | ok may =>
      cases may with
      | false => rfl
      | true => exact absurd hRead hMay
  · rw [Node.content_refill_of_ne hHere hFile]

theorem addFiles_echoes {xs ys : List (String × Node)} (h : List.Forall₂ (u.Echoes text) xs ys) (r : GrepReport) :
    (ys.filter fun entry => !entry.2.isDir).foldlM (fun r entry => r.addFile u p invert entry.1 entry.2) r =
      (xs.filter fun entry => !entry.2.isDir).foldlM (fun r entry => r.addFile u p invert entry.1 entry.2) r := by
  induction h generalizing r with
  | nil => rfl
  | @cons x y xs ys hHead _ ih =>
    obtain ⟨path, n⟩ := x
    obtain ⟨path', n'⟩ := y
    obtain ⟨rfl, v, rfl, hHides⟩ : path' = path ∧ ∃ v, n' = n.refill text v ∧ u.Hides v n := hHead
    simp only [List.filter_cons, Node.isDir_refill]
    cases hDir : n.isDir with
    | true => exact ih r
    | false =>
      simp only [Bool.not_false, if_true, List.foldlM_cons, addFile_refill _ _ hHides hDir, ih]

theorem addTrail_echoes {t t' : Trail} (r : GrepReport) (h : t.Echoes u text t') :
    r.addTrail u p invert t' = r.addTrail u p invert t := by
  rw [addTrail, addTrail, h.fault, addFiles_echoes h.nodes]

end GrepReport

namespace Session

variable {s : Session}

theorem walk_echoes (h : s.subject.Hides w s.root) (start : PathArg) :
    (s.walk start).Echoes s.subject text ((s.refill text w).walk start) := by
  rw [walk_eq, walk_eq, stat_refill]
  cases hStat : s.stat start with
  | ok n => exact Subject.walk_echoes (h.follow hStat) _
  | error fault =>
    cases fault with
    | refused refusal => exact Trail.echoes_empty
    | crashed c => exact ⟨.nil, rfl⟩

theorem find_refill (h : s.subject.Hides w s.root) (start : PathArg) (f : FindFilters) :
    (s.refill text w).find start f = s.find start f := by
  have hWalk : (s.walk start).Echoes s.subject text ((s.refill text w).walk start) := walk_echoes h start
  have hSelect := f.select_echoes s.now hWalk.nodes
  rw [find, find, hWalk.fault]
  exact congrArg (· >>= _) hSelect

theorem grep_refill (h : s.subject.Hides w s.root) (pattern : String) (paths : List String) (o : GrepOptions) :
    (s.refill text w).grep pattern paths o = s.grep pattern paths o := by
  have hOperand : ∀ (p : Pattern) (r : GrepReport) (path : String),
      r.addOperand (s.refill text w) p o path = r.addOperand s p o path := by
    intro p r path
    rw [GrepReport.addOperand, GrepReport.addOperand, stat_refill]
    cases hStat : s.stat (some path) with
    | error fault => cases fault <;> rfl
    | ok n =>
      have hHides := h.follow hStat
      simp only [Except.map, Node.isDir_refill, subject_refill, GrepReport.addTrail_echoes r (walk_echoes h _)]
      cases hDir : n.isDir with
      | false =>
        rw [Bool.not_false, if_pos rfl, if_pos rfl]
        exact r.addFile_refill path hHides hDir
      | true => simp only [Bool.not_true, Bool.false_eq_true, if_false]
  simp only [grep, hOperand]

end Session

end VirtualShell
