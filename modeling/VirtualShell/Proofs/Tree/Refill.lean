import VirtualShell.Proofs.Tree.Entries
import VirtualShell.Proofs.Tree.Everywhere

/-!
# Another content for one file

The names that lead down to a file are its spot. A tree in which the file at a spot got other content is
looked up and changed like the tree before: whatever is found differs in that content at most, and a change
made at any place leaves trees that differ in it at most.
-/
namespace VirtualShell
set_option autoImplicit false

/-- The names that lead from a node down to a file, if it lies there or below. -/
abbrev Spot := Option (List String)

namespace Spot

def enter (p : String) : Spot → Spot
  | some (q :: rest) => if q = p then some rest else none
  | _ => none

def follow (w : Spot) (qs : List String) : Spot := qs.foldl (fun w q => enter q w) w

@[simp] theorem enter_none (p : String) : enter p none = none := rfl

@[simp] theorem enter_nil (p : String) : enter p (some []) = none := rfl

theorem enter_cons (p q : String) (rest : List String) :
    enter p (some (q :: rest)) = if q = p then some rest else none := rfl

theorem enter_eq_some {p : String} {rest : List String} {w : Spot} :
    enter p w = some rest ↔ w = some (p :: rest) := by
  cases w with
  | none => simp
  | some ps =>
    cases ps with
    | nil => simp
    | cons q qs =>
      rw [enter_cons]
      by_cases hq : q = p
      · simp [hq]
      · simp [hq]

@[simp] theorem follow_nil (w : Spot) : follow w [] = w := rfl

@[simp] theorem follow_cons (w : Spot) (q : String) (qs : List String) :
    follow w (q :: qs) = follow (enter q w) qs := rfl

theorem follow_append (w : Spot) (ps qs : List String) : follow w (ps ++ qs) = follow (follow w ps) qs :=
  List.foldl_append

@[simp] theorem follow_none (qs : List String) : follow none qs = none := by
  induction qs with
  | nil => rfl
  | cons q qs ih => exact ih

theorem follow_eq_some {qs rest : List String} {w : Spot} : follow w qs = some rest ↔ w = some (qs ++ rest) := by
  induction qs generalizing w with
  | nil => rfl
  | cons q qs ih => rw [follow_cons, ih, enter_eq_some, List.cons_append]

def without (w : Spot) (qs : List String) : Spot := if (w.follow qs).isSome then none else w

theorem without_of_none {w : Spot} {qs : List String} (h : w.follow qs = none) : w.without qs = w := by
  simp [without, h]

def moved (w : Spot) (qs ds : List String) : Spot :=
  match w.follow qs with
  | some rest => some (ds ++ rest)
  | none => w.without ds

end Spot

namespace Node

variable {n m e : Node} {w : Spot} {text : String}

def refill (text : String) : Spot → Node → Node
  | none, n => n
  | some ps, n => n.modify (setContent text) ps

@[simp] theorem refill_none (text : String) (n : Node) : n.refill text none = n := rfl

theorem refill_file (text : String) (w : Spot) (i : Info) (c : String) :
    (file i c).refill text w = file i (if w = some [] then text else c) := by
  cases w with
  | none => rfl
  | some ps => cases ps <;> rfl

theorem refill_dir (text : String) (w : Spot) (i : Info) (es : List Node) :
    (dir i es).refill text w = dir i (es.map fun e => e.refill text (Spot.enter e.name w)) := by
  cases w with
  | none => simp
  | some ps =>
    cases ps with
    | nil => simp [refill, modify, setContent]
    | cons p ps =>
      simp only [refill, modify, mapEntries]
      congr 1
      refine List.map_congr_left fun e _ => ?_
      rw [Spot.enter_cons]
      by_cases hp : e.name = p
      · simp [hp]
      · simp [hp, Ne.symm hp]

@[simp] theorem info_refill (text : String) (w : Spot) (n : Node) : (n.refill text w).info = n.info := by
  cases n with
  | file i c => rw [refill_file]; rfl
  | dir i es => rw [refill_dir]; rfl

@[simp] theorem isDir_refill (text : String) (w : Spot) (n : Node) : (n.refill text w).isDir = n.isDir := by
  cases n with
  | file i c => rw [refill_file]; rfl
  | dir i es => rw [refill_dir]; rfl

@[simp] theorem name_refill (text : String) (w : Spot) (n : Node) : (n.refill text w).name = n.name := by
  rw [name, info_refill, name]

@[simp] theorem kind_refill (text : String) (w : Spot) (n : Node) : (n.refill text w).kind = n.kind :=
  kind_of_isDir_eq (isDir_refill text w n)

theorem entries_refill (text : String) (w : Spot) (n : Node) :
    (n.refill text w).entries = n.entries.map fun e => e.refill text (Spot.enter e.name w) := by
  cases n with
  | file i c => rw [refill_file]; rfl
  | dir i es => rw [refill_dir]; rfl

/-- A file elsewhere has the same content. -/
theorem content_refill_of_ne (h : w ≠ some []) (hFile : n.isDir = false) : n.refill text w = n := by
  cases n with
  | file i c => rw [refill_file, if_neg h]
  | dir i es => cases hFile

theorem child?_refill (text : String) (w : Spot) (n : Node) (p : String) :
    (n.refill text w).child? p = (n.child? p).map (refill text (Spot.enter p w)) := by
  rw [child?, child?, entries_refill]
  induction n.entries with
  | nil => rfl
  | cons e es ih =>
    rw [List.map_cons, Keyed.find?_cons, Keyed.find?_cons, name_refill]
    by_cases hp : e.name = p
    · rw [if_pos hp, if_pos hp, hp]
      rfl
    · rw [if_neg hp, if_neg hp]
      exact ih

theorem get?_refill (text : String) (w : Spot) (n : Node) (qs : List String) :
    (n.refill text w).get? qs = (n.get? qs).map (refill text (w.follow qs)) := by
  induction qs generalizing n w with
  | nil => rfl
  | cons q qs ih =>
    rw [get?_cons, get?_cons, child?_refill, Spot.follow_cons]
    cases n.child? q with
    | none => rfl
    | some e => exact ih (Spot.enter q w) e

theorem keepsName_refill (text : String) (w : Spot) : KeepsName (refill text w) := name_refill text w

variable {f g : Node → Node}

theorem modify_dir (f : Node → Node) (q : String) (qs : List String) (i : Info) (es : List Node) :
    (dir i es).modify f (q :: qs) = dir i (es.map fun e => if e.name == q then e.modify f qs else e) := rfl

theorem modify_append (f : Node → Node) (ps qs : List String) (n : Node) :
    n.modify f (ps ++ qs) = n.modify (modify f qs) ps := by
  induction ps generalizing n with
  | nil => rfl
  | cons p ps ih =>
    rw [List.cons_append, modify, modify]
    simp only [ih]

theorem modify_modify (hf : KeepsName f) (ps : List String) (n : Node) :
    (n.modify f ps).modify g ps = n.modify (fun m => g (f m)) ps := by
  induction ps generalizing n with
  | nil => rfl
  | cons p ps ih =>
    cases n with
    | file i c => rfl
    | dir i es =>
      rw [modify_dir, modify_dir, modify_dir, List.map_map]
      congr 1
      refine List.map_congr_left fun e _ => ?_
      by_cases hp : e.name = p
      · have hName := (name_modify hf ps e).trans hp
        simp [hp, hName, ih]
      · simp [hp]

/-- The entries of a directory stand in the order of their names, so that no two have the same one. -/
def Ordered (n : Node) : Prop := Keyed.Ordered Node.name n.entries

theorem WellFormed.everywhere_ordered {n : Node} (h : n.WellFormed) : n.Everywhere Ordered :=
  .of_walk fun q m (hm : (q, m) ∈ n.walk "/") => (h.of_mem_walk hm).ordered

theorem modify_congr {qs : List String} (hOrder : n.Everywhere Ordered)
    (h : ∀ m, n.get? qs = some m → f m = g m) : n.modify f qs = n.modify g qs := by
  induction qs generalizing n with
  | nil => exact h n rfl
  | cons q qs ih =>
    cases n with
    | file i c => rfl
    | dir i es =>
      rw [modify_dir, modify_dir]
      congr 1
      refine List.map_congr_left fun e he => ?_
      by_cases hq : e.name = q
      · have hChild : (dir i es).child? q = some e := (Keyed.find?_eq_some_iff hOrder.here).mpr ⟨he, hq⟩
        have hBelow : ∀ m, e.get? qs = some m → f m = g m := by
          intro m hm
          apply h m
          rw [get?_cons, hChild]
          exact hm
        simp [hq, ih (hOrder.of_mem he) hBelow]
      · simp [hq]

/-- A change that does not look at the content of the file may be made before or after it gets another. -/
theorem modify_refill (hg : KeepsName g) {qs : List String}
    (h : ∀ m, g (m.refill text (w.follow qs)) = (g m).refill text (w.follow qs)) :
    (n.refill text w).modify g qs = (n.modify g qs).refill text w := by
  induction qs generalizing n w with
  | nil => exact h n
  | cons q qs ih =>
    cases n with
    | file i c => rw [refill_file]; exact (refill_file text w i c).symm
    | dir i es =>
      rw [refill_dir, modify_dir, modify_dir, refill_dir, List.map_map, List.map_map]
      congr 1
      refine List.map_congr_left fun e _ => ?_
      by_cases hq : e.name = q
      · subst hq
        have hName : (e.modify g qs).name = e.name := name_modify hg qs e
        simp [hName, ih h]
      · simp [hq]

theorem refill_append (text : String) (qs rest : List String) (n : Node) :
    n.refill text (some (qs ++ rest)) = n.modify (refill text (some rest)) qs := modify_append _ qs rest n

theorem mapInfo_refill (g : Info → Info) (text : String) (w : Spot) (n : Node) :
    (n.refill text w).mapInfo g = (n.mapInfo g).refill text w := by
  cases n with
  | file i c => rw [refill_file]; exact (refill_file text w (g i) c).symm
  | dir i es => rw [refill_dir]; exact (refill_dir text w (g i) es).symm

theorem rename_refill (new text : String) (w : Spot) (n : Node) :
    (n.refill text w).rename new = (n.rename new).refill text w := mapInfo_refill _ text w n

theorem mapAll_refill {g : Info → Info} (hName : ∀ i : Info, (g i).name = i.name) (text : String) (w : Spot)
    (n : Node) : (n.refill text w).mapAll g = (n.mapAll g).refill text w := by
  induction n using induct generalizing w with
  | file i c => rw [refill_file]; exact (refill_file text w (g i) c).symm
  | dir i es ih =>
    rw [refill_dir, mapAll, mapAll, refill_dir, mapAllList_eq_map, mapAllList_eq_map, List.map_map, List.map_map]
    congr 1
    refine List.map_congr_left fun e he => ?_
    have hKeep := keepsName_mapAll hName e
    simp only [Function.comp_apply, hKeep, ih e he]

theorem dropEntry_refill (name text : String) (w : Spot) (n : Node) :
    (n.refill text w).dropEntry name = (n.dropEntry name).refill text w := by
  cases n with
  | file i c => rw [refill_file]; exact (refill_file text w i c).symm
  | dir i es =>
    rw [refill_dir, dropEntry, dropEntry, mapEntries, mapEntries, refill_dir, Keyed.erase, Keyed.erase,
      List.filter_map]
    congr 3
    funext e
    simp

/-- The file goes with the entry that it lies in. -/
theorem dropEntry_refill_inside (name text : String) (rest : List String) (n : Node) :
    (n.refill text (some (name :: rest))).dropEntry name = n.dropEntry name := by
  rw [dropEntry_refill]
  cases n with
  | file i c => rfl
  | dir i es =>
    rw [dropEntry, mapEntries, refill_dir]
    congr 1
    refine (List.map_congr_left fun e he => ?_).trans (List.map_id _)
    have hne : e.name ≠ name := by simpa [Keyed.erase] using (List.mem_filter.mp he).2
    rw [Spot.enter_cons, if_neg (Ne.symm hne)]
    rfl

theorem putEntry_refill (e : Node) (text : String) (w : Spot) (n : Node) :
    (n.refill text w).putEntry (e.refill text (Spot.enter e.name w)) = (n.putEntry e).refill text w := by
  cases n with
  | file i c => rw [refill_file]; exact (refill_file text w i c).symm
  | dir i es =>
    rw [refill_dir, putEntry, putEntry, mapEntries, mapEntries, refill_dir]
    have hName : ∀ x : Node, (x.refill text (Spot.enter x.name w)).name = x.name := fun x => name_refill text _ x
    rw [Keyed.insert_map hName]

/-- The file goes with the entry whose place is taken. -/
theorem putEntry_refill_inside (hOrder : n.Ordered) {rest : List String} :
    (n.refill text (some (e.name :: rest))).putEntry e = n.putEntry e := by
  cases n with
  | file i c => rw [refill_file]; rfl
  | dir i es =>
    rw [refill_dir, putEntry, putEntry, mapEntries, mapEntries]
    congr 1
    refine Keyed.insert_map_of_ne (fun x => name_refill text _ x) hOrder fun y hne => ?_
    rw [Spot.enter_cons, if_neg (Ne.symm hne)]
    rfl

theorem drop_refill_inside {name : String} {qs rest : List String} {time : Float} :
    (n.refill text (some (qs ++ name :: rest))).modify (fun m => (m.dropEntry name).touch time) qs =
      n.modify (fun m => (m.dropEntry name).touch time) qs := by
  rw [refill_append, modify_modify (keepsName_refill text _)]
  simp only [dropEntry_refill_inside]

def SameBut (w : Spot) (n n' : Node) : Prop := n' = n ∨ ∃ text, n' = n.refill text w

namespace SameBut

variable {n' : Node} {qs : List String} {name : String} {time : Float}

theorem refill (text : String) (w : Spot) (n : Node) : SameBut w n (n.refill text w) := .inr ⟨text, rfl⟩

/-- A change that does not look at contents. -/
theorem modify (h : SameBut w n n') (hg : KeepsName g)
    (hSame : ∀ text v m, g (m.refill text v) = (g m).refill text v) : SameBut w (n.modify g qs) (n'.modify g qs) := by
  rcases h with rfl | ⟨text, rfl⟩
  · exact .inl rfl
  · exact .inr ⟨text, modify_refill hg fun m => hSame text _ m⟩

theorem of_without (h : SameBut (w.without qs) n n') : SameBut w n n' := by
  unfold Spot.without at h
  split at h
  · rcases h with rfl | ⟨text, rfl⟩
    · exact .inl rfl
    · exact .inl rfl
  · exact h

theorem drop (h : SameBut w n n') : SameBut (w.without (qs ++ [name]))
    (n.modify (fun m => (m.dropEntry name).touch time) qs)
    (n'.modify (fun m => (m.dropEntry name).touch time) qs) := by
  rcases h with rfl | ⟨text, rfl⟩
  · exact .inl rfl
  · cases hInside : w.follow (qs ++ [name]) with
    | none =>
      rw [Spot.without_of_none hInside]
      refine .inr ⟨text, modify_refill (keepsName_dropEntry name time) fun m => ?_⟩
      rw [dropEntry_refill, touch, mapInfo_refill, touch]
    | some rest =>
      -- The file was in the entry that is gone, so that nothing differs any more.
      rw [Spot.follow_eq_some.mp hInside, List.append_assoc]
      exact .inl drop_refill_inside

theorem put (h : SameBut w n n') (hOrder : n.Everywhere Ordered) : SameBut (w.without (qs ++ [e.name]))
    (n.modify (fun m => (m.putEntry e).touch time) qs)
    (n'.modify (fun m => (m.putEntry e).touch time) qs) := by
  rcases h with rfl | ⟨text, rfl⟩
  · exact .inl rfl
  · cases hInside : w.follow (qs ++ [e.name]) with
    | none =>
      rw [Spot.without_of_none hInside]
      refine .inr ⟨text, modify_refill (keepsName_putEntry e time) fun m => ?_⟩
      rw [Spot.follow_append] at hInside
      have hPut := putEntry_refill e text (w.follow qs) m
      have hElsewhere : Spot.enter e.name (w.follow qs) = none := hInside
      rw [hElsewhere, refill_none] at hPut
      rw [hPut, touch, mapInfo_refill, touch]
    | some rest =>
      -- The entry takes the place of the file, or of a directory above it.
      rw [Spot.follow_eq_some.mp hInside, List.append_assoc, refill_append,
        modify_modify (keepsName_refill text _)]
      refine .inl (modify_congr hOrder fun m hm => ?_)
      rw [List.singleton_append, putEntry_refill_inside (hOrder.get? hm).here]

/-- Different texts may be written where the file is. -/
theorem overwrite (h : SameBut w n n') {old new : String} (hText : w.follow qs ≠ some [] → new = old) :
    SameBut w (n.modify (fun m => (m.setContent old).touch time) qs)
      (n'.modify (fun m => (m.setContent new).touch time) qs) := by
  have hNames : ∀ content : String, KeepsName fun m => (m.setContent content).touch time := fun content m => by simp
  by_cases hHere : w.follow qs = some []
  · have hSpot : w = some qs := by simpa using Spot.follow_eq_some.mp hHere
    have hRefill : ∀ content k, Node.refill content w k = k.modify (setContent content) qs :=
      fun content k => by rw [hSpot]; rfl
    refine .inr ⟨new, ?_⟩
    rw [hRefill, modify_modify (hNames old)]
    rcases h with rfl | ⟨text, rfl⟩
    · congr 1
      funext m
      cases m <;> rfl
    · rw [hRefill, modify_modify fun m => name_setContent text m]
      congr 1
      funext m
      cases m <;> rfl
  · rw [hText hHere]
    rcases h with rfl | ⟨text, rfl⟩
    · exact .inl rfl
    · refine .inr ⟨text, modify_refill (hNames old) fun m => ?_⟩
      rw [touch, touch, ← mapInfo_refill]
      congr 1
      cases m with
      | file i c => rw [refill_file, setContent, setContent, refill_file, if_neg hHere]
      | dir i es => rw [refill_dir, setContent, setContent, refill_dir]

end SameBut

section

variable (h : n.Everywhere Ordered)

include h

theorem ordered_modify (hf : KeepsName f) (hKeep : ∀ m : Node, m.Everywhere Ordered → (f m).Everywhere Ordered)
    (qs : List String) : (n.modify f qs).Everywhere Ordered := by
  refine h.modify hf hKeep (fun m g hg hm => ?_) qs
  cases m with
  | file i c => exact List.Pairwise.nil
  | dir i es => exact ordered_map hg hm

theorem ordered_mapInfo (g : Info → Info) : (n.mapInfo g).Everywhere Ordered := by
  refine Everywhere.mapInfo h ?_
  rw [Ordered, entries_mapInfo]
  exact h.here

theorem ordered_drop {qs : List String} {name : String} {time : Float} :
    (n.modify (fun m => (m.dropEntry name).touch time) qs).Everywhere Ordered := by
  refine ordered_modify h (keepsName_dropEntry name time) (fun m hm => ?_) qs
  refine ordered_mapInfo (Everywhere.dropEntry hm ?_) _
  cases m with
  | file i c => exact List.Pairwise.nil
  | dir i es => exact Keyed.ordered_erase hm.here

theorem ordered_put {e : Node} (he : e.Everywhere Ordered) {qs : List String} {time : Float} :
    (n.modify (fun m => (m.putEntry e).touch time) qs).Everywhere Ordered := by
  refine ordered_modify h (keepsName_putEntry e time) (fun m hm => ?_) qs
  refine ordered_mapInfo (Everywhere.putEntry hm he ?_) _
  cases m with
  | file i c => exact List.Pairwise.nil
  | dir i es => exact Keyed.ordered_insert hm.here

/-- An entry that is put where none of its name was, and taken out again, leaves the time of change alone. -/
theorem drop_put {qs : List String} {time later : Float} (hFree : n.get? (qs ++ [e.name]) = none) :
    (n.modify (fun m => (m.putEntry e).touch time) qs).modify (fun m => (m.dropEntry e.name).touch later) qs =
      n.modify (touch later) qs := by
  rw [modify_modify (keepsName_putEntry e time)]
  refine modify_congr h fun m hm => ?_
  rw [get?_concat, hm, Option.bind_some] at hFree
  cases m with
  | file i c => rfl
  | dir i es =>
    have hAbsent : ∀ x ∈ es, x.name ≠ e.name := by
      intro x hx hName
      cases hFree.symm.trans ((Keyed.find?_eq_some_iff (h.get? hm).here).mpr ⟨hx, hName⟩)
    have hEntries : Keyed.erase name e.name (Keyed.insert name e es) = es := Keyed.erase_insert hAbsent
    simp [putEntry, dropEntry, touch, mapInfo, mapEntries, hEntries]

theorem ordered_setContent (text : String) : (n.setContent text).Everywhere Ordered := by
  refine Everywhere.setContent h ?_
  rw [Ordered, entries_setContent]
  exact h.here

theorem ordered_mapAll {g : Info → Info} (hName : ∀ i : Info, (g i).name = i.name) :
    (n.mapAll g).Everywhere Ordered := by
  refine Everywhere.mapAll h fun m hm => ?_
  cases m with
  | file i c => exact List.Pairwise.nil
  | dir i es =>
    rw [mapAll, mapAllList_eq_map]
    exact ordered_map (keepsName_mapAll hName) hm

end

/-- The moved node takes the file along, if that lies in it. -/
theorem sameBut_moved (hOrder : n.Everywhere Ordered) (e : Node) (text name : String) (w : Spot)
    (qs ds : List String) (time : Float) :
    SameBut (w.moved (qs ++ [name]) (ds ++ [e.name]))
      ((n.modify (fun m => (m.dropEntry name).touch time) qs).modify (fun m => (m.putEntry e).touch time) ds)
      (((n.refill text w).modify (fun m => (m.dropEntry name).touch time) qs).modify
        (fun m => (m.putEntry (e.refill text (w.follow (qs ++ [name])))).touch time) ds) := by
  cases hInside : w.follow (qs ++ [name]) with
  | none =>
    rw [Spot.moved, hInside, refill_none]
    have hDrop : SameBut (w.without (qs ++ [name])) (n.modify (fun m => (m.dropEntry name).touch time) qs)
        ((n.refill text w).modify (fun m => (m.dropEntry name).touch time) qs) := (SameBut.refill text w n).drop
    rw [Spot.without_of_none hInside] at hDrop
    exact hDrop.put (ordered_drop hOrder)
  | some rest =>
    rw [Spot.moved, hInside, Spot.follow_eq_some.mp hInside]
    dsimp only
    rw [List.append_assoc, List.append_assoc]
    refine .inr ⟨text, ?_⟩
    rw [List.singleton_append, drop_refill_inside, refill_append, modify_modify (keepsName_putEntry e time)]
    -- Both trees are changed at `ds` only: there one gets the node with the other content, the other gets that
    -- content in the node it has put.
    refine modify_congr (ordered_drop hOrder) fun m hm => ?_
    have hPut := putEntry_refill e text (some (e.name :: rest)) m
    have hName : (e.refill text (some rest)).name = e.name := name_refill text _ e
    rw [Spot.enter_cons, if_pos rfl, ← hName, putEntry_refill_inside ((ordered_drop hOrder).get? hm).here] at hPut
    rw [hPut, touch, mapInfo_refill, touch, hName, List.singleton_append]

end Node

end VirtualShell
