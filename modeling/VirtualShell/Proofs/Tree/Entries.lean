import VirtualShell.Proofs.Tree.WellFormed

/-!
# Nodes after an entry came or went

Putting an entry in replaces the nodes at and below its place by its own. All other nodes stay what they
are, as they do when an entry is taken out.
-/
namespace VirtualShell.Node
set_option autoImplicit false

variable {n m e : Node} {ps qs : List String} {name : String} {time : Float}

theorem keepsName_dropEntry (name : String) (time : Float) :
    KeepsName fun n => (n.dropEntry name).touch time := by
  intro n
  simp [dropEntry]

theorem keepsName_putEntry (e : Node) (time : Float) : KeepsName fun n => (n.putEntry e).touch time := by
  intro n
  simp [putEntry]

theorem child?_drop (p : String) :
    ((n.dropEntry name).touch time).child? p = if p = name then none else n.child? p := by
  rw [child?_touch, child?_dropEntry]

theorem child?_put (hDir : n.isDir = true) (h : n.WellFormed) (p : String) :
    ((n.putEntry e).touch time).child? p = if e.name = p then some e else n.child? p := by
  rw [child?_touch, child?_putEntry hDir h.ordered]

theorem kindAt_drop_elsewhere (h : ¬ps ++ [name] <+: qs) :
    (n.modify (fun m => (m.dropEntry name).touch time) ps).kindAt qs = n.kindAt qs := by
  by_cases hPrefix : ps <+: qs
  · obtain ⟨rs, rfl⟩ := hPrefix
    rw [kindAt_modify_append (keepsName_dropEntry name time), kindAt_append]
    cases n.get? ps with
    | none => rfl
    | some m =>
      cases rs with
      | nil => simp [dropEntry, kind_of_isDir_eq (isDir_touch time _)]
      | cons r rs =>
        have hr : r ≠ name := by
          rintro rfl
          exact h ⟨rs, by simp⟩
        simp only [Option.bind_some, kindAt_cons, child?_drop, if_neg hr]
  · exact kindAt_modify_elsewhere (keepsName_dropEntry name time) hPrefix n

theorem kindAt_put_below (h : n.WellFormed) (hDir : n.kindAt ps = some .dir) (rest : List String) :
    (n.modify (fun m => (m.putEntry e).touch time) ps).kindAt (ps ++ e.name :: rest) = e.kindAt rest := by
  obtain ⟨m, hm, hKind⟩ := Option.map_eq_some_iff.mp hDir
  have hDir := kind_eq_dir_iff.mp hKind
  simp only [kindAt_modify_append (keepsName_putEntry e time), hm, Option.bind_some, kindAt_cons,
    child?_put hDir (h.get? hm), if_true]

theorem kindAt_put_elsewhere (h : n.WellFormed) (hne : ¬ps ++ [e.name] <+: qs) :
    (n.modify (fun m => (m.putEntry e).touch time) ps).kindAt qs = n.kindAt qs := by
  by_cases hPrefix : ps <+: qs
  · obtain ⟨rs, rfl⟩ := hPrefix
    rw [kindAt_modify_append (keepsName_putEntry e time), kindAt_append]
    cases hm : n.get? ps with
    | none => rfl
    | some m =>
      cases rs with
      | nil => simp [putEntry, kind_of_isDir_eq (isDir_touch time _)]
      | cons r rs =>
        have hr : e.name ≠ r := by
          rintro rfl
          exact hne ⟨rs, by simp⟩
        cases hDir : m.isDir with
        | false =>
          cases m with
          | file i c => rfl
          | dir i es => cases hDir
        | true => simp only [Option.bind_some, kindAt_cons, child?_put hDir (h.get? hm), if_neg hr]
  · exact kindAt_modify_elsewhere (keepsName_putEntry e time) hPrefix n

theorem wellFormed_drop (h : n.WellFormed) (name : String) (time : Float) (ps : List String) :
    (n.modify (fun m => (m.dropEntry name).touch time) ps).WellFormed :=
  h.modify (keepsName_dropEntry name time) (fun _ hm => (hm.dropEntry name).touch time) ps

theorem wellFormed_put (h : n.WellFormed) (he : e.WellFormed) (hName : Path.isPart e.name = true) (time : Float)
    (ps : List String) : (n.modify (fun m => (m.putEntry e).touch time) ps).WellFormed :=
  h.modify (keepsName_putEntry e time) (fun _ hm => (hm.putEntry he hName).touch time) ps

section

variable {ds : List String} (h : n.WellFormed)

include h

theorem wellFormed_move (he : e.WellFormed) (hName : Path.isPart e.name = true) :
    ((n.modify (fun m => (m.dropEntry name).touch time) ps).modify
      (fun m => (m.putEntry e).touch time) ds).WellFormed :=
  wellFormed_put (wellFormed_drop h name time ps) he hName time ds

theorem kindAt_move_below {new : String} (hDir : n.kindAt ds = some .dir)
    (hOutside : ¬ps ++ [name] <+: ds) (hName : e.name = new) (rest : List String) :
    ((n.modify (fun m => (m.dropEntry name).touch time) ps).modify (fun m => (m.putEntry e).touch time) ds).kindAt
      (ds ++ new :: rest) = e.kindAt rest := by
  subst hName
  apply kindAt_put_below (wellFormed_drop h name time ps)
  rw [kindAt_drop_elsewhere hOutside]
  exact hDir

theorem kindAt_move_elsewhere (hOld : ¬ps ++ [name] <+: qs)
    (hNew : ¬ds ++ [e.name] <+: qs) :
    ((n.modify (fun m => (m.dropEntry name).touch time) ps).modify (fun m => (m.putEntry e).touch time) ds).kindAt
      qs = n.kindAt qs := by
  rw [kindAt_put_elsewhere (wellFormed_drop h name time ps) hNew, kindAt_drop_elsewhere hOld]

end

theorem name_move {ds : List String} : ((n.modify (fun m => (m.dropEntry name).touch time) ps).modify
    (fun m => (m.putEntry e).touch time) ds).name = n.name := by
  rw [name_modify (keepsName_putEntry _ _), name_modify (keepsName_dropEntry _ _)]

end VirtualShell.Node
