import VirtualShell.Proofs.Tree.WellFormed

/-!
# What holds of all nodes

`Everywhere p` says that `p` holds of a node and of all nodes below it, which are those that a walk
meets. A change at one place keeps it if the change itself does and if `p` does not look below the names
of entries.
-/
namespace VirtualShell.Node
set_option autoImplicit false

/-- What a file has, and a directory whose entries have it, every node has. -/
@[elab_as_elim] theorem induct {motive : Node → Prop} (file : ∀ i c, motive (.file i c))
    (dir : ∀ i es, (∀ e ∈ es, motive e) → motive (.dir i es)) (n : Node) : motive n := by
  refine Node.rec (motive_1 := motive) (motive_2 := fun es => ∀ e ∈ es, motive e) file dir ?_ ?_ n
  · exact fun e he => nomatch he
  · intro e es hHead hTail x hx
    rcases List.mem_cons.mp hx with rfl | hx
    · exact hHead
    · exact hTail x hx

inductive Everywhere (p : Node → Prop) : Node → Prop where
  | intro {n : Node} : p n → (∀ e ∈ n.entries, Everywhere p e) → Everywhere p n

namespace Everywhere

variable {p : Node → Prop} {n m e : Node}

theorem here (h : n.Everywhere p) : p n := by
  cases h
  assumption

theorem of_mem (h : n.Everywhere p) (he : e ∈ n.entries) : e.Everywhere p := by
  cases h with
  | intro _ hBelow => exact hBelow e he

theorem mono {q : Node → Prop} (h : n.Everywhere p) (hq : ∀ m, p m → q m) : n.Everywhere q := by
  induction h with
  | intro hn _ ih => exact .intro (hq _ hn) ih

theorem get? {ps : List String} (h : n.Everywhere p) (hm : n.get? ps = some m) : m.Everywhere p := by
  induction ps generalizing n with
  | nil =>
    cases hm
    exact h
  | cons q qs ih =>
    obtain ⟨e, he, hm⟩ := Option.bind_eq_some_iff.mp hm
    exact ih (h.of_mem (mem_of_child? he)) hm

theorem of_mem_walk {path q : String} (h : n.Everywhere p) (hm : (q, m) ∈ n.walk path) : m.Everywhere p := by
  induction h generalizing path with
  | @intro n hn hEntries ih =>
    cases n with
    | file i c =>
      cases List.mem_singleton.mp hm
      exact .intro hn hEntries
    | dir i es =>
      rw [walk, walkList_eq_flatMap] at hm
      rcases List.mem_cons.mp hm with hm | hm
      · cases hm
        exact .intro hn hEntries
      · obtain ⟨e, he, hm⟩ := List.mem_flatMap.mp hm
        exact ih e he hm

theorem of_walk {path : String} (h : ∀ q m, (q, m) ∈ n.walk path → p m) : n.Everywhere p := by
  induction n using induct generalizing path with
  | file i c => exact .intro (h _ _ List.mem_cons_self) fun e he => nomatch he
  | dir i es ih =>
    refine .intro (h _ _ List.mem_cons_self) fun e he => ?_
    have hBelow : ∀ q m, (q, m) ∈ e.walk (Path.join path e.name) → p m := by
      intro q m hm
      apply h q m
      rw [walk, walkList_eq_flatMap]
      exact List.mem_cons_of_mem _ (List.mem_flatMap.mpr ⟨e, he, hm⟩)
    exact ih e he hBelow

theorem putEntry (h : n.Everywhere p) (he : e.Everywhere p) (hPut : p (n.putEntry e)) :
    (n.putEntry e).Everywhere p := by
  refine .intro hPut fun x hx => ?_
  cases n with
  | file i c => cases hx
  | dir i es =>
    rcases Keyed.mem_insert hx with rfl | hx
    · exact he
    · exact h.of_mem hx

theorem dropEntry {name : String} (h : n.Everywhere p) (hDrop : p (n.dropEntry name)) :
    (n.dropEntry name).Everywhere p := by
  refine .intro hDrop fun x hx => ?_
  cases n with
  | file i c => cases hx
  | dir i es => exact h.of_mem (List.mem_filter.mp hx).1

theorem mapInfo {g : Info → Info} (h : n.Everywhere p) (hMap : p (n.mapInfo g)) : (n.mapInfo g).Everywhere p := by
  refine .intro hMap fun x hx => ?_
  rw [entries_mapInfo] at hx
  exact h.of_mem hx

theorem setContent {text : String} (h : n.Everywhere p) (hSet : p (n.setContent text)) :
    (n.setContent text).Everywhere p := by
  refine .intro hSet fun x hx => ?_
  rw [entries_setContent] at hx
  exact h.of_mem hx

theorem mapAll {g : Info → Info} (h : n.Everywhere p) (hMap : ∀ m, p m → p (m.mapAll g)) :
    (n.mapAll g).Everywhere p := by
  induction h with
  | @intro n hn _ ih =>
    refine .intro (hMap n hn) fun x hx => ?_
    cases n with
    | file i c => cases hx
    | dir i es =>
      rw [Node.mapAll, mapAllList_eq_map] at hx
      obtain ⟨e, he, rfl⟩ := List.mem_map.mp hx
      exact ih e he

/-- A change at one place. What holds above it may look at the names of the entries only. -/
theorem modify {f : Node → Node} (hf : KeepsName f) (hKeep : ∀ m : Node, m.Everywhere p → (f m).Everywhere p)
    (hNames : ∀ (m : Node) (g : Node → Node), KeepsName g → p m → p (m.mapEntries (List.map g)))
    (ps : List String) (h : n.Everywhere p) : (n.modify f ps).Everywhere p := by
  induction ps generalizing n with
  | nil => exact hKeep n h
  | cons q qs ih =>
    have hKeeps : KeepsName fun e => if e.name == q then Node.modify f qs e else e := by
      intro e
      dsimp only
      split
      · exact name_modify hf qs e
      · rfl
    refine .intro (hNames n _ hKeeps h.here) fun x hx => ?_
    cases n with
    | file i c => cases hx
    | dir i es =>
      obtain ⟨e, he, rfl⟩ := List.mem_map.mp hx
      split
      · exact ih (h.of_mem he)
      · exact h.of_mem he

end Everywhere

/-- `N` holds of the name of this node and of the names below it. -/
abbrev AllNames (N : String → Prop) (n : Node) : Prop := n.Everywhere fun m => N m.name

theorem allNames_file {N : String → Prop} {i : Info} {c : String} (h : N i.name) : (file i c).AllNames N :=
  .intro h (by simp [entries])

theorem allNames_dir {N : String → Prop} {i : Info} {es : List Node} (h : N i.name) (hes : ∀ e ∈ es, e.AllNames N) :
    (dir i es).AllNames N :=
  .intro h hes

end VirtualShell.Node
