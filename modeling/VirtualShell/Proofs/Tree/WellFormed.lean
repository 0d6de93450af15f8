import VirtualShell.Proofs.Path.Parts
import VirtualShell.Proofs.Roster
import VirtualShell.Proofs.Tree.Lookup
import VirtualShell.Snapshot.Reader

/-!
# Well-formed trees

In a well-formed tree every node has a full permission text, an owner and a group, and the entries of
every directory stand in the order of their names, each of which may be a part of a path. Every change
of a tree keeps this, `WellFormed.modify` a change at any place in it.
-/
namespace VirtualShell
set_option autoImplicit false

structure Info.Valid (i : Info) : Prop where
  permissions : Draft.isPermissions i.permissions = true
  owner : i.owner ≠ ""
  group : i.group ≠ ""

namespace Node

inductive WellFormed : Node → Prop where
  | file {i : Info} {c : String} : i.Valid → WellFormed (.file i c)
  | dir {i : Info} {es : List Node} : i.Valid → Keyed.Ordered Node.name es →
      (∀ e ∈ es, Path.isPart e.name = true) → (∀ e ∈ es, WellFormed e) → WellFormed (.dir i es)

theorem ordered_map {g : Node → Node} (hg : KeepsName g) {es : List Node} (h : Keyed.Ordered Node.name es) :
    Keyed.Ordered Node.name (es.map g) := by
  refine List.Pairwise.map g ?_ h
  intro a b hab
  rwa [hg a, hg b]

theorem mapAllList_eq_map (g : Info → Info) (es : List Node) : mapAllList g es = es.map (mapAll g) := by
  induction es with
  | nil => rfl
  | cons e es ih => rw [mapAllList, ih, List.map_cons]

theorem info_mapAll (g : Info → Info) (n : Node) : (n.mapAll g).info = g n.info := by
  cases n <;> rfl

theorem isDir_mapAll (g : Info → Info) (n : Node) : (n.mapAll g).isDir = n.isDir := by
  cases n <;> rfl

theorem keepsName_mapAll {g : Info → Info} (hName : ∀ i : Info, (g i).name = i.name) :
    KeepsName (mapAll g) := by
  intro n
  rw [name, info_mapAll, hName, name]

theorem child?_mapAll {g : Info → Info} (hName : ∀ i : Info, (g i).name = i.name) (n : Node) (p : String) :
    (n.mapAll g).child? p = (n.child? p).map (mapAll g) := by
  cases n with
  | file i c => rfl
  | dir i es =>
    rw [mapAll, mapAllList_eq_map, child?, child?, entries, entries]
    induction es with
    | nil => rfl
    | cons e es ih =>
      rw [List.map_cons, Keyed.find?_cons, Keyed.find?_cons, keepsName_mapAll hName e]
      split
      · rfl
      · exact ih

theorem kindAt_mapAll {g : Info → Info} (hName : ∀ i : Info, (g i).name = i.name) (n : Node)
    (ps : List String) : (n.mapAll g).kindAt ps = n.kindAt ps := by
  induction ps generalizing n with
  | nil => rw [kindAt_nil, kindAt_nil, kind_of_isDir_eq (isDir_mapAll g n)]
  | cons p ps ih =>
    rw [kindAt_cons, kindAt_cons, child?_mapAll hName]
    cases n.child? p with
    | none => rfl
    | some e => exact ih e

namespace WellFormed

variable {n e m : Node}

theorem info_valid (h : n.WellFormed) : n.info.Valid := by
  cases h <;> assumption

theorem ordered (h : n.WellFormed) : Keyed.Ordered Node.name n.entries := by
  cases h with
  | file => exact List.Pairwise.nil
  | dir _ hOrder _ _ => exact hOrder

theorem isPart_name (h : n.WellFormed) (he : e ∈ n.entries) : Path.isPart e.name = true := by
  cases h with
  | file => cases he
  | dir _ _ hPart _ => exact hPart e he

theorem of_mem (h : n.WellFormed) (he : e ∈ n.entries) : e.WellFormed := by
  cases h with
  | file => cases he
  | dir _ _ _ hEntries => exact hEntries e he

theorem get? {ps : List String} (h : n.WellFormed) (hm : n.get? ps = some m) : m.WellFormed := by
  induction ps generalizing n with
  | nil =>
    cases hm
    exact h
  | cons p ps ih =>
    obtain ⟨e, he, hm⟩ := Option.bind_eq_some_iff.mp hm
    exact ih (h.of_mem (mem_of_child? he)) hm

theorem areParts {ps : List String} (h : n.WellFormed) (hm : n.get? ps = some m) : Path.AreParts ps := by
  induction ps generalizing n with
  | nil => exact .nil
  | cons p ps ih =>
    obtain ⟨e, he, hm⟩ := Option.bind_eq_some_iff.mp hm
    have hPart := h.isPart_name (mem_of_child? he)
    rw [name_of_child? he] at hPart
    exact .cons hPart (ih (h.of_mem (mem_of_child? he)) hm)

theorem mapInfo {g : Info → Info} (h : n.WellFormed) (hg : (g n.info).Valid) : (n.mapInfo g).WellFormed := by
  cases h with
  | file => exact .file hg
  | dir _ hOrder hPart hEntries => exact .dir hg hOrder hPart hEntries

theorem touch (h : n.WellFormed) (time : Float) : (n.touch time).WellFormed :=
  h.mapInfo ⟨h.info_valid.permissions, h.info_valid.owner, h.info_valid.group⟩

theorem rename (h : n.WellFormed) (new : String) : (n.rename new).WellFormed :=
  h.mapInfo ⟨h.info_valid.permissions, h.info_valid.owner, h.info_valid.group⟩

theorem setContent (h : n.WellFormed) (text : String) : (n.setContent text).WellFormed := by
  cases h with
  | file hi => exact .file hi
  | dir hi hOrder hPart hEntries => exact .dir hi hOrder hPart hEntries

theorem putEntry (h : n.WellFormed) (he : e.WellFormed) (hName : Path.isPart e.name = true) :
    (n.putEntry e).WellFormed := by
  cases h with
  | file hi => exact .file hi
  | dir hi hOrder hPart hEntries =>
    refine .dir hi (Keyed.ordered_insert hOrder) ?_ ?_
    · intro x hx
      rcases Keyed.mem_insert hx with rfl | hx
      · exact hName
      · exact hPart x hx
    · intro x hx
      rcases Keyed.mem_insert hx with rfl | hx
      · exact he
      · exact hEntries x hx

theorem dropEntry (h : n.WellFormed) (name : String) : (n.dropEntry name).WellFormed := by
  cases h with
  | file hi => exact .file hi
  | dir hi hOrder hPart hEntries =>
    refine .dir hi (Keyed.ordered_erase hOrder) ?_ ?_
    · exact fun x hx => hPart x ((List.mem_filter.mp hx).1)
    · exact fun x hx => hEntries x ((List.mem_filter.mp hx).1)

theorem mapAll {g : Info → Info} (h : n.WellFormed) (hName : ∀ i : Info, (g i).name = i.name)
    (hg : ∀ i : Info, i.Valid → (g i).Valid) : (n.mapAll g).WellFormed := by
  have hKeeps : KeepsName (Node.mapAll g) := keepsName_mapAll hName
  induction h with
  | file hi => exact .file (hg _ hi)
  | @dir i es hi hOrder hPart _ ih =>
    rw [Node.mapAll, mapAllList_eq_map]
    refine .dir (hg _ hi) (ordered_map hKeeps hOrder) ?_ ?_
    · intro x hx
      obtain ⟨e, he, rfl⟩ := List.mem_map.mp hx
      rw [hKeeps e]
      exact hPart e he
    · intro x hx
      obtain ⟨e, he, rfl⟩ := List.mem_map.mp hx
      exact ih e he

theorem modify {f : Node → Node} (hf : KeepsName f) (hKeep : ∀ m : Node, m.WellFormed → (f m).WellFormed)
    (ps : List String) (h : n.WellFormed) : (n.modify f ps).WellFormed := by
  induction ps generalizing n with
  | nil => exact hKeep n h
  | cons p ps ih =>
    cases h with
    | file hi => exact .file hi
    | dir hi hOrder hPart hEntries =>
      have hKeeps : KeepsName fun e => if e.name == p then Node.modify f ps e else e := by
        intro e
        dsimp only
        split
        · exact name_modify hf ps e
        · rfl
      refine .dir hi (ordered_map hKeeps hOrder) ?_ ?_
      · intro x hx
        obtain ⟨e, he, rfl⟩ := List.mem_map.mp hx
        rw [hKeeps e]
        exact hPart e he
      · intro x hx
        obtain ⟨e, he, rfl⟩ := List.mem_map.mp hx
        split
        · exact ih (hEntries e he)
        · exact hEntries e he

end WellFormed

/-- The entries of a node are found under names that may be parts of paths, only directories have
entries and only files content, and the permission text is in order. -/
structure Intact (n : Node) : Prop where
  child : ∀ e ∈ n.entries, n.child? e.name = some e ∧ Path.isPart e.name = true
  file : n.isDir = false → n.entries = []
  dir : n.isDir = true → n.content = ""
  permissions : Draft.isPermissions n.info.permissions = true

theorem WellFormed.intact {n : Node} (h : n.WellFormed) : n.Intact where
  child e he := ⟨(Keyed.find?_eq_some_iff h.ordered).mpr ⟨he, rfl⟩, h.isPart_name he⟩
  file hFile := by
    cases n with
    | file i c => rfl
    | dir i es => cases hFile
  dir hDir := by
    cases n with
    | file i c => cases hDir
    | dir i es => rfl
  permissions := h.info_valid.permissions

theorem walkList_eq_flatMap (path : String) (es : List Node) :
    walkList path es = es.flatMap fun e => e.walk (Path.join path e.name) := by
  induction es with
  | nil => rfl
  | cons e es ih => rw [walkList, ih, List.flatMap_cons]

theorem WellFormed.of_mem_walk {n m : Node} {path p : String} (h : n.WellFormed) (hm : (p, m) ∈ n.walk path) :
    m.WellFormed := by
  induction h generalizing path with
  | file hi =>
    cases List.mem_singleton.mp hm
    exact .file hi
  | dir hi hOrder hPart hEntries ih =>
    rw [walk, walkList_eq_flatMap] at hm
    rcases List.mem_cons.mp hm with hm | hm
    · cases hm
      exact .dir hi hOrder hPart hEntries
    · obtain ⟨e, he, hm⟩ := List.mem_flatMap.mp hm
      exact ih e he hm

end Node

end VirtualShell
