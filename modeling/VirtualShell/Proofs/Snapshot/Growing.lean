import VirtualShell.Proofs.Snapshot.Describing
import VirtualShell.Proofs.Tree.WellFormed

/-!
# The tree that a draft becomes

Where no two children have one name, no node of a draft is lost: the tree has a node at the end of a chain of
names just when the draft has one there, and it is what that one becomes.
-/
namespace VirtualShell
set_option autoImplicit false

/-- No node lies so deep that a draft of the tree would have no room for it. -/
def Node.Fits (room : Nat) (n : Node) : Prop := ∀ ps e, n.get? ps = some e → ps.length < room

namespace Draft

variable {d : Draft} {n : Node} {ps : List String}

@[simp] theorem info_toNode (d : Draft) : d.toNode.info = d.info := by
  obtain ⟨kind, i, content, ds⟩ := d
  cases kind <;> rfl

@[simp] theorem name_toNode (d : Draft) : d.toNode.name = d.name := congrArg Info.name (info_toNode d)

@[simp] theorem kind_toNode (d : Draft) : d.toNode.kind = d.kind := by
  obtain ⟨kind, i, content, ds⟩ := d
  cases kind <;> rfl

theorem toNodes_eq_foldl (done : List Node) (ds : List Draft) :
    toNodes done ds = (ds.map toNode).foldl (fun es e => Keyed.insert Node.name e es) done := by
  induction ds generalizing done with
  | nil => rfl
  | cons d ds ih => rw [toNodes, ih, List.map_cons, List.foldl_cons]

theorem Lawful.entries_toNode (h : d.Lawful) :
    d.toNode.entries = (Roster.ofList (d.children.map toNode) : Roster Node Node.name).members := by
  obtain ⟨kind, i, content, ds⟩ := d
  cases kind with
  | file =>
    have hNone : ds = [] := h.file rfl
    rw [hNone]
    rfl
  | dir =>
    rw [Roster.ofList, Roster.members_foldl_insert]
    exact toNodes_eq_foldl [] ds

theorem Lawful.child?_toNode (h : d.Lawful) (p : String) :
    d.toNode.child? p = (d.children.find? fun c => c.name == p).map toNode := by
  have hDistinct : ((d.children.map toNode).map Node.name).Nodup := by
    simpa [List.map_map, Function.comp_def] using h.distinct
  have hFind := Roster.find?_ofList hDistinct p
  rw [List.find?_map] at hFind
  rw [Node.child?, h.entries_toNode]
  simpa [Roster.find?, Function.comp_def] using hFind

/-- No node is lost, and none is added. -/
theorem Orderly.get?_toNode (h : d.Orderly) : d.toNode.get? ps = some n ↔ ∃ x, d.At ps x ∧ n = x.toNode := by
  induction ps generalizing d with
  | nil =>
    constructor
    · rintro ⟨⟩
      exact ⟨d, .here, rfl⟩
    · rintro ⟨_, ⟨⟩, rfl⟩
      rfl
  | cons p ps ih =>
    obtain ⟨hLawful, hChildren⟩ := orderly_iff.mp h
    -- Names of children are distinct, so that no child has taken the place of another one.
    rw [Node.get?_cons, hLawful.child?_toNode, Option.bind_eq_some_iff]
    constructor
    · rintro ⟨e, he, hn⟩
      obtain ⟨c, hFind, rfl⟩ := Option.map_eq_some_iff.mp he
      obtain ⟨hc, hName⟩ := (find?_eq_some_iff hLawful.distinct).mp hFind
      obtain ⟨x, hx, hEq⟩ := (ih (hChildren c hc)).mp hn
      exact ⟨x, at_cons_iff.mpr ⟨c, hc, hName, hx⟩, hEq⟩
    · rintro ⟨x, hx, rfl⟩
      obtain ⟨c, hc, hName, hx⟩ := at_cons_iff.mp hx
      have hFind := (find?_eq_some_iff hLawful.distinct).mpr ⟨hc, hName⟩
      exact ⟨c.toNode, by rw [hFind, Option.map_some], (ih (hChildren c hc)).mpr ⟨x, hx, rfl⟩⟩

theorem Orderly.fits_toNode {room : Nat} (h : d.Orderly) : d.toNode.Fits room ↔ d.Fits room := by
  constructor
  · exact fun hFits ps x hx => hFits ps x.toNode (h.get?_toNode.mpr ⟨x, hx, rfl⟩)
  · intro hFits ps e he
    obtain ⟨x, hx, -⟩ := h.get?_toNode.mp he
    exact hFits ps x hx

theorem Orderly.kindAt_toNode {kind : NodeKind} (h : d.Orderly) :
    d.toNode.kindAt ps = some kind ↔ ∃ x, d.At ps x ∧ x.kind = kind := by
  rw [Node.kindAt, Option.map_eq_some_iff]
  constructor
  · rintro ⟨n, hn, rfl⟩
    obtain ⟨x, hx, rfl⟩ := h.get?_toNode.mp hn
    exact ⟨x, hx, (kind_toNode x).symm⟩
  · rintro ⟨x, hx, rfl⟩
    exact ⟨x.toNode, h.get?_toNode.mpr ⟨x, hx, rfl⟩, kind_toNode x⟩

/-- A way through directories leads to one, and only such a way does. -/
theorem Orderly.leadsThrough_iff (h : d.Orderly) :
    (∀ qs, qs <+: ps → ∃ x, d.At qs x ∧ x.kind = .dir) ↔ d.toNode.isDirAt ps = true := by
  simp only [← h.kindAt_toNode, Node.isDirAt_iff_kindAt]
  constructor
  · exact fun hWay => hWay ps (List.prefix_refl ps)
  · intro hDir qs hqs
    by_cases hLast : qs = ps
    · rw [hLast, hDir]
    · exact Node.kindAt_of_ne hqs hLast (by rw [hDir]; exact Option.some_ne_none _)

theorem Lawful.isPart_name {c : Draft} {j : Json} (h : d.Lawful) (hc : c ∈ d.children) (hDescribes : c.Describes j) :
    Path.isPart c.name = true := by
  obtain ⟨hSlash, hDot, hDots⟩ := h.names c hc
  exact Path.isPart_iff.mpr ⟨hDescribes.named.1, hDot, hDots, hSlash⟩

/-- Names along a way may be parts of a path. -/
theorem Orderly.areParts {j : Json} {x : Draft} (h : d.Orderly) (hDescribes : d.Describes j) (hx : d.At ps x) :
    Path.AreParts ps := by
  induction hx generalizing j with
  | here => exact .nil
  | @inside d c x ps hc _ ih =>
    obtain ⟨hLawful, hChildren⟩ := orderly_iff.mp h
    obtain ⟨jc, hChild⟩ := hDescribes.exists_of_mem hc
    exact (ih (hChildren c hc) hChild).cons (hLawful.isPart_name hc hChild)

theorem Orderly.wellFormed_toNode {j : Json} (h : d.Orderly) (hDescribes : d.Describes j) : d.toNode.WellFormed := by
  induction d using induct generalizing j with
  | mk kind i content ds ih =>
    obtain ⟨hLawful, hChildren⟩ := orderly_iff.mp h
    obtain ⟨-, hOwner, hGroup⟩ := hDescribes.named
    have hValid : i.Valid := ⟨isPermissions_iff.mpr hLawful.permissions, hOwner, hGroup⟩
    cases kind with
    | file => exact .file hValid
    | dir =>
      have hEntries := hLawful.entries_toNode
      have hMem : ∀ e ∈ toNodes [] ds, ∃ c ∈ ds, c.toNode = e := by
        intro e he
        rw [show toNodes [] ds = _ from hEntries] at he
        exact List.mem_map.mp (Roster.of_mem_ofList he)
      refine .dir hValid ?_ (fun e he => ?_) fun e he => ?_
      · rw [show toNodes [] ds = _ from hEntries]
        exact Roster.ordered _
      · obtain ⟨c, hc, rfl⟩ := hMem e he
        obtain ⟨jc, hChild⟩ := hDescribes.exists_of_mem hc
        rw [name_toNode]
        exact hLawful.isPart_name hc hChild
      · obtain ⟨c, hc, rfl⟩ := hMem e he
        obtain ⟨jc, hChild⟩ := hDescribes.exists_of_mem hc
        exact ih c hc (hChildren c hc) hChild

end Draft

end VirtualShell
