import Mathlib.Data.List.Forall2
import VirtualShell.Proofs.Session.Outcome
import VirtualShell.Proofs.Session.Reach
import VirtualShell.Proofs.Tree.Refill
import VirtualShell.Session.Attributes
import VirtualShell.Session.Inspect
import VirtualShell.Session.Remove

/-!
# Sessions that differ in one file

The checks of a session do not look at the content of files. So a session in which one file has another
content finds what the session before has found, up to that content.
-/
namespace VirtualShell
set_option autoImplicit false

namespace Subject

variable {u : Subject} {n m e : Node} {w : Spot} {text : String}

theorem may_refill (u : Subject) (a : Access) (text : String) (w : Spot) (n : Node) :
    u.may a (n.refill text w) = u.may a n := by
  simp only [may, Node.info_refill, Node.isDir_refill]

theorem mayAll_refill (u : Subject) (as : List Access) (text : String) (w : Spot) (n : Node) :
    u.mayAll (n.refill text w) as = u.mayAll n as := by
  induction as with
  | nil => rfl
  | cons a as ih => rw [mayAll, mayAll, may_refill, ih]

theorem reach_refill (u : Subject) (shown text : String) (w : Spot) (n : Node) (qs : List String) :
    u.reach shown (n.refill text w) qs = (u.reach shown n qs).map (Node.refill text (w.follow qs)) := by
  induction qs generalizing n w with
  | nil => rfl
  | cons q qs ih =>
    rw [reach, reach, Node.isDir_refill, may_refill, Node.child?_refill, Spot.follow_cons]
    split
    · cases u.may .execute n with
      | error fault => rfl
      | ok may =>
        cases may with
        | false => rfl
        | true =>
          cases n.child? q with
          | none => rfl
          | some e => exact ih (Spot.enter q w) e
    · rfl

end Subject

namespace Node

variable {n : Node} {text : String}

abbrev Refilled (text : String) (x y : String × Node) : Prop := y.1 = x.1 ∧ ∃ v, y.2 = x.2.refill text v

theorem walk_refill (text : String) (w : Spot) (n : Node) (path : String) :
    List.Forall₂ (Refilled text) (n.walk path) ((n.refill text w).walk path) := by
  induction n using induct generalizing w path with
  | file i c =>
    have hFile := refill_file text w i c
    rw [hFile, walk, walk]
    exact .cons ⟨rfl, w, hFile.symm⟩ .nil
  | dir i es ih =>
    have hDir := refill_dir text w i es
    rw [hDir, walk, walk]
    refine .cons ⟨rfl, w, hDir.symm⟩ ?_
    clear hDir
    induction es with
    | nil => exact .nil
    | cons e es ihList =>
      rw [List.map_cons, walkList, walkList, name_refill]
      refine List.rel_append (ih e List.mem_cons_self _ _) (ihList fun x hx => ih x (List.mem_cons_of_mem e hx))

end Node

namespace Session

def refill (text : String) (w : Spot) (s : Session) : Session := { s with root := s.root.refill text w }

variable {s : Session} {n : Node} {path : PathArg} {full text : String} {w v : Spot}

@[simp] theorem subject_refill (text : String) (w : Spot) (s : Session) : (s.refill text w).subject = s.subject := rfl

@[simp] theorem resolve_refill (text : String) (w : Spot) (s : Session) (path : PathArg) :
    (s.refill text w).resolve path = s.resolve path := rfl

theorem lookup_refill (text : String) (w : Spot) (s : Session) (path : String) :
    (s.refill text w).lookup path = (s.lookup path).map (Node.refill text (w.follow (Path.split path))) :=
  Node.get?_refill text w s.root _

theorem isDirectory_refill (text : String) (w : Spot) (s : Session) (path : String) :
    (s.refill text w).isDirectory path = s.isDirectory path := by
  rw [isDirectory, isDirectory, lookup_refill]
  cases s.lookup path with
  | none => rfl
  | some n => exact Node.isDir_refill text _ n

theorem reach_refill (text : String) (w : Spot) (s : Session) (full : String) (path : PathArg) :
    (s.refill text w).reach full path = (s.reach full path).map (Node.refill text (w.follow (Path.split full))) :=
  Subject.reach_refill s.subject _ text w s.root _

theorem reachDirectory_refill (text : String) (w : Spot) (s : Session) (full : String) (path : PathArg) :
    (s.refill text w).reachDirectory full path =
      (s.reachDirectory full path).map (Node.refill text (w.follow (Path.split full))) := by
  rw [reachDirectory, reachDirectory, reach_refill]
  cases s.reach full path with
  | error fault => rfl
  | ok n =>
    simp only [Except.map, Result.ok_bind, Node.isDir_refill]
    cases n.isDir <;> rfl

theorem stat_refill (text : String) (w : Spot) (s : Session) (path : PathArg) :
    (s.refill text w).stat path =
      (s.stat path).map (Node.refill text (w.follow (Path.split (s.resolve path)))) :=
  reach_refill text w s _ path

theorem list_refill (text : String) (w : Spot) (s : Session) (path : PathArg) (hidden : Bool) :
    (s.refill text w).list path hidden = (s.list path hidden).map
      (List.map fun e => e.refill text (Spot.enter e.name (w.follow (Path.split (s.resolve path))))) := by
  rw [list, list, resolve_refill, reachDirectory_refill]
  cases s.reachDirectory (s.resolve path) path with
  | error fault => rfl
  | ok n =>
    simp only [Except.map, Result.ok_bind, subject_refill, Subject.mayAll_refill, Node.entries_refill]
    cases s.subject.mayAll n [.read, .execute] with
    | error fault => rfl
    | ok may =>
      cases may with
      | false => rfl
      | true =>
        simp only [Result.ok_bind, if_true, List.filter_map, Function.comp_def, Node.name_refill]
        rfl

theorem parentNode_refill (text : String) (w : Spot) (s : Session) (path : String) :
    (s.refill text w).parentNode path =
      (s.parentNode path).map (Node.refill text (w.follow (Path.split (Path.parentOf path)))) := by
  rw [parentNode, parentNode, lookup_refill]
  cases s.lookup (Path.parentOf path) with
  | none => rfl
  | some n => rfl

theorem entry_refill (text : String) (w : Spot) (s : Session) (directory name : String) :
    ((s.refill text w).lookup directory).bind (·.child? name) =
      ((s.lookup directory).bind (·.child? name)).map
        (Node.refill text (Spot.enter name (w.follow (Path.split directory)))) := by
  rw [lookup_refill]
  cases s.lookup directory with
  | none => rfl
  | some n => exact Node.child?_refill text _ n name

theorem requireModifiable_refill (text : String) (w v : Spot) (s : Session) (n : Node) (attempt : Attempt) :
    (s.refill text w).requireModifiable (n.refill text v) attempt = s.requireModifiable n attempt := by
  rw [requireModifiable, requireModifiable, subject_refill, Subject.mayAll_refill]

theorem destination_refill (text : String) (w v : Spot) (s : Session) (n : Node) (dest : PathArg) :
    (s.refill text w).destination (n.refill text v) dest = s.destination n dest := by
  simp only [destination, isDirectory_refill, resolve_refill, Node.name_refill]

theorem isOccupied_refill (text : String) (w v : Spot) (target : Node) (name : String) (n : Node) :
    isOccupied (target.refill text w) name (n.refill text v) = isOccupied target name n := by
  rw [isOccupied, isOccupied, Node.child?_refill]
  cases target.child? name with
  | none => rfl
  | some e =>
    show ((e.refill text _).isDir || _) = _
    rw [Node.isDir_refill, Node.isDir_refill]

theorem requireRemovable_refill {xs ys : List (String × Node)}
    (h : List.Forall₂ (Node.Refilled text) xs ys) :
    (s.refill text w).requireRemovable ys = s.requireRemovable xs := by
  induction h with
  | nil => rfl
  | @cons x y xs ys hHead _ ih =>
    obtain ⟨q, m⟩ := x
    obtain ⟨q', m'⟩ := y
    obtain ⟨hPath, v, hNode⟩ : q' = q ∧ ∃ v, m' = m.refill text v := hHead
    rw [hPath, hNode, requireRemovable, requireRemovable, Node.isDir_refill, subject_refill, Subject.mayAll_refill, ih]

theorem requireReadable_refill {xs ys : List (String × Node)}
    (h : List.Forall₂ (Node.Refilled text) xs ys) :
    (s.refill text w).requireReadable ys = s.requireReadable xs := by
  induction h with
  | nil => rfl
  | @cons x y xs ys hHead _ ih =>
    obtain ⟨q, m⟩ := x
    obtain ⟨q', m'⟩ := y
    obtain ⟨hPath, v, hNode⟩ : q' = q ∧ ∃ v, m' = m.refill text v := hHead
    rw [hPath, hNode, requireReadable, requireReadable, Node.isDir_refill, subject_refill, Subject.mayAll_refill, ih]

theorem newChain_refill (text : String) (w : Spot) (s : Session) (p : String) (ps : List String) :
    (s.refill text w).newChain p ps = s.newChain p ps := by
  induction ps generalizing p with
  | nil => rfl
  | cons q qs ih =>
    rw [newChain, newChain, ih]
    rfl

def DirectoryPlan.refill (text : String) (v : Spot) : DirectoryPlan → DirectoryPlan
  | .present => .present
  | .missing place n parts => .missing place (n.refill text v) parts

theorem planDirectories_refill {u : Subject} {shown : String} {parents : Bool} {place parts : List String} :
    Result.Agree (fun plan plan' => ∃ v, plan' = plan.refill text v)
      (planDirectories u shown parents place n parts)
      (planDirectories u shown parents place (n.refill text w) parts) := by
  induction parts generalizing place n w with
  | nil => exact .ok ⟨none, rfl⟩
  | cons p ps ih =>
    rw [planDirectories, planDirectories, Subject.may_refill, Node.child?_refill]
    refine Result.Agree.bind_same fun may => ?_
    cases may with
    | false => exact .error _
    | true =>
      cases n.child? p with
      | none =>
        simp only [Option.map_none, if_true]
        split
        · exact .error _
        · exact .ok ⟨w, rfl⟩
      | some e =>
        cases e with
        | file i c =>
          simp only [Option.map_some, Node.refill_file, if_true]
          exact .error _
        | dir i es =>
          simp only [Option.map_some, Node.refill_dir, if_true]
          split
          · exact .error _
          · rw [← Node.refill_dir]
            exact ih

end Session

namespace Update

variable {α β γ δ : Type} {s t : Session} {post : α → Session → β → Session → Prop}

/-- Steps on `s` and steps on `t` that both answer such that `post` holds, or that fail alike and leave the
sessions as they were. -/
inductive Twins (s t : Session) (post : α → Session → β → Session → Prop) (u : Update α) (u' : Update β) : Prop where
  | answer {a : α} {b : β} {s' t' : Session} : u.run s = (.ok a, s') → u'.run t = (.ok b, t') → post a s' b t' →
      Twins s t post u u'
  | fault (fault : Fault) : u.run s = (.error fault, s) → u'.run t = (.error fault, t) → Twins s t post u u'

theorem twins_pure {a : α} {b : β} (h : post a s b t) : Twins s t post (pure a) (pure b) := .answer rfl rfl h

theorem twins_error (fault : Fault) : Twins s t post (liftM (.error fault : Except Fault α) : Update α)
    (liftM (.error fault : Except Fault β) : Update β) :=
  .fault fault rfl rfl

theorem twins_error_ite {c : Prop} [Decidable c] {fault : Fault} {u : Update α} {u' : Update β}
    (h : ¬c → Twins s t post u u') : Twins s t post (if c then liftM (.error fault : Except Fault α) else u)
      (if c then liftM (.error fault : Except Fault β) else u') := by
  split
  · exact twins_error _
  · rename_i hc
    exact h hc

theorem twins_ite_error {c : Prop} [Decidable c] {fault : Fault} {u : Update α} {u' : Update β}
    (h : c → Twins s t post u u') : Twins s t post (if c then u else liftM (.error fault : Except Fault α))
      (if c then u' else liftM (.error fault : Except Fault β)) := by
  split
  · rename_i hc
    exact h hc
  · exact twins_error _

theorem twins_session_bind {f : Session → Update α} {f' : Session → Update β}
    (h : Twins s t post (f s) (f' t)) : Twins s t post (session >>= f) (session >>= f') := by
  cases h with
  | answer hRun hRun' hPost => exact .answer hRun hRun' hPost
  | fault fault hRun hRun' => exact .fault fault hRun hRun'

theorem twins_bind {R : γ → δ → Prop} {r : Except Fault γ} {r' : Except Fault δ} {f : γ → Update α}
    {f' : δ → Update β} (hr : Result.Agree R r r') (h : ∀ c d, r = .ok c → R c d → Twins s t post (f c) (f' d)) :
    Twins s t post ((liftM r : Update γ) >>= f) ((liftM r' : Update δ) >>= f') := by
  cases hr with
  | error fault => exact .fault fault rfl rfl
  | ok hcd =>
    cases h _ _ rfl hcd with
    | answer hRun hRun' hPost => exact .answer hRun hRun' hPost
    | fault fault hRun hRun' => exact .fault fault hRun hRun'

theorem twins_bind_same {r : Except Fault γ} {f : γ → Update α} {f' : γ → Update β}
    (h : ∀ c, r = .ok c → Twins s t post (f c) (f' c)) :
    Twins s t post ((liftM r : Update γ) >>= f) ((liftM r : Update γ) >>= f') := by
  refine twins_bind (.refl (fun _ => rfl) r) fun c d hc hcd => ?_
  rw [← hcd]
  exact h c hc

theorem twins_bind_map {r : Except Fault γ} {g : γ → δ} {f : γ → Update α} {f' : δ → Update β}
    (h : ∀ c, r = .ok c → Twins s t post (f c) (f' (g c))) :
    Twins s t post ((liftM r : Update γ) >>= f) ((liftM (r.map g) : Update δ) >>= f') := by
  cases r with
  | error fault => exact .fault fault rfl rfl
  | ok c =>
    cases h c rfl with
    | answer hRun hRun' hPost => exact .answer hRun hRun' hPost
    | fault fault hRun hRun' => exact .fault fault hRun hRun'

theorem twins_write {change change' : Session → Session} {a : α} {b : β}
    (h : post a (change s) b (change' t)) :
    Twins s t post (write change >>= fun _ => pure a) (write change' >>= fun _ => pure b) :=
  .answer rfl rfl h

theorem twins_look {see : Session → Except Fault α} {g : α → β} {see' : Session → Except Fault β}
    (hSee : see' t = (see s).map g) (h : ∀ a, post a s (g a) t) : Twins s t post (look see) (look see') := by
  cases hRun : see s with
  | ok a =>
    rw [hRun] at hSee
    exact .answer (congrArg (·, s) hRun) (congrArg (·, t) hSee) (h a)
  | error fault =>
    rw [hRun] at hSee
    exact .fault fault (congrArg (·, s) hRun) (congrArg (·, t) hSee)

theorem twins_map {g : α → γ} {g' : β → δ} {post' : γ → Session → δ → Session → Prop} {u : Update α}
    {u' : Update β} (hu : Twins s t post u u') (h : ∀ a s' b t', post a s' b t' → post' (g a) s' (g' b) t') :
    Twins s t post' (g <$> u) (g' <$> u') := by
  have hMap : ∀ {α γ : Type} (u : Update α) (g : α → γ), g <$> u = u >>= fun a => pure (g a) := fun _ _ => rfl
  rw [hMap, hMap]
  cases hu with
  | answer hRun hRun' hPost =>
    refine .answer ?_ ?_ (h _ _ _ _ hPost)
    · rw [run_bind, hRun]
      rfl
    · rw [run_bind, hRun']
      rfl
  | fault fault hRun hRun' =>
    refine .fault fault ?_ ?_
    · rw [run_bind, hRun]
    · rw [run_bind, hRun']

theorem twins_return {a : γ} {b : δ} {post' : γ → Session → δ → Session → Prop} {u : Update α} {u' : Update β}
    (hu : Twins s t post u u') (h : ∀ x s' y t', post x s' y t' → post' a s' b t') :
    Twins s t post' (u >>= fun _ => pure a) (u' >>= fun _ => pure b) :=
  twins_map (g := fun _ => a) hu h

end Update

end VirtualShell
