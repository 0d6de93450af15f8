import VirtualShell.Proofs.Snapshot.Growing

/-!
# Drafts of well-formed trees

`Draft.ofNode` is the draft that a written tree is read as. That of a well-formed tree obeys all rules and
becomes this tree again.
-/
namespace VirtualShell.Draft
set_option autoImplicit false

mutual

def ofNode : Node → Draft
  | .file i c => .mk .file i c []
  | .dir i es => .mk .dir i "" (ofNodes es)

def ofNodes : List Node → List Draft
  | [] => []
  | e :: es => ofNode e :: ofNodes es

end

theorem ofNodes_eq_map (es : List Node) : ofNodes es = es.map ofNode := by
  induction es with
  | nil => rfl
  | cons e es ih => rw [ofNodes, ih, List.map_cons]

@[simp] theorem info_ofNode (n : Node) : (ofNode n).info = n.info := by
  cases n <;> rfl

@[simp] theorem name_ofNode (n : Node) : (ofNode n).name = n.name := congrArg Info.name (info_ofNode n)

@[simp] theorem kind_ofNode (n : Node) : (ofNode n).kind = n.kind := by
  cases n <;> rfl

theorem children_ofNode (n : Node) : (ofNode n).children = n.entries.map ofNode := by
  cases n with
  | file i c => rfl
  | dir i es => exact ofNodes_eq_map es

theorem toNode_ofNode {n : Node} (h : n.WellFormed) : (ofNode n).toNode = n := by
  induction h with
  | file => rfl
  | @dir i es hi hOrder hPart hEntries ih =>
    have hNodes : (ofNodes es).map toNode = es := by
      rw [ofNodes_eq_map, List.map_map]
      exact (List.map_congr_left ih).trans (List.map_id es)
    have hOrdered : Keyed.Ordered Node.name ([] ++ es) := hOrder
    rw [ofNode, toNode, toNodes_eq_foldl, hNodes, Keyed.foldl_insert_eq_append hOrdered, List.nil_append]

theorem lawful_ofNode {n : Node} (h : n.WellFormed) : (ofNode n).Lawful := by
  constructor
  · rw [info_ofNode]
    exact isPermissions_iff.mp h.info_valid.permissions
  · intro hFile
    rw [kind_ofNode] at hFile
    cases n with
    | file i c => rfl
    | dir i es => cases hFile
  · intro hDir
    rw [kind_ofNode] at hDir
    cases n with
    | file i c => cases hDir
    | dir i es => rfl
  · rw [children_ofNode, List.map_map, List.Nodup, List.pairwise_map]
    refine h.ordered.imp fun {a b} hLess hSame => ?_
    simp only [Function.comp_apply, name_ofNode] at hSame
    rw [hSame] at hLess
    exact String.lt_irrefl _ hLess
  · intro c hc
    rw [children_ofNode] at hc
    obtain ⟨e, he, rfl⟩ := List.mem_map.mp hc
    obtain ⟨-, hDot, hDots, hSlash⟩ := Path.isPart_iff.mp (h.isPart_name he)
    rw [name_ofNode]
    exact ⟨hSlash, hDot, hDots⟩

theorem orderly_ofNode {n : Node} (h : n.WellFormed) : (ofNode n).Orderly := by
  induction h with
  | @file i c hValid =>
    refine orderly_iff.mpr ⟨lawful_ofNode (.file hValid), fun c hc => ?_⟩
    cases hc
  | @dir i es hValid hOrder hPart hEntries ih =>
    refine orderly_iff.mpr ⟨lawful_ofNode (.dir hValid hOrder hPart hEntries), fun c hc => ?_⟩
    rw [children_ofNode] at hc
    obtain ⟨e, he, rfl⟩ := List.mem_map.mp hc
    exact ih e he

theorem fits_ofNode {n : Node} {room : Nat} (h : n.WellFormed) : (ofNode n).Fits room ↔ n.Fits room := by
  rw [← (orderly_ofNode h).fits_toNode, toNode_ofNode h]

end VirtualShell.Draft
