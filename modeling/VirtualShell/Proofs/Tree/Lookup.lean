import VirtualShell.Tree.Node

/-!
# Looking up in a changed tree

`get?_modify_append` and `get?_modify_elsewhere` say what a lookup finds after a change at one
place: below that place what the change leaves there, elsewhere what was there before. The first needs
the change to keep the name of the node.
-/
namespace VirtualShell.Node
set_option autoImplicit false

variable {n m e : Node} {f : Node → Node}

@[simp] theorem info_mapInfo (g : Info → Info) (n : Node) : (n.mapInfo g).info = g n.info := by
  cases n <;> rfl

@[simp] theorem isDir_mapInfo (g : Info → Info) (n : Node) : (n.mapInfo g).isDir = n.isDir := by
  cases n <;> rfl

@[simp] theorem entries_mapInfo (g : Info → Info) (n : Node) : (n.mapInfo g).entries = n.entries := by
  cases n <;> rfl

@[simp] theorem name_touch (time : Float) (n : Node) : (n.touch time).name = n.name := by
  simp [name, touch]

@[simp] theorem isDir_touch (time : Float) (n : Node) : (n.touch time).isDir = n.isDir := isDir_mapInfo _ n

@[simp] theorem entries_touch (time : Float) (n : Node) : (n.touch time).entries = n.entries :=
  entries_mapInfo _ n

@[simp] theorem name_rename (new : String) (n : Node) : (n.rename new).name = new := by
  simp [name, rename]

@[simp] theorem isDir_rename (new : String) (n : Node) : (n.rename new).isDir = n.isDir := isDir_mapInfo _ n

@[simp] theorem entries_rename (new : String) (n : Node) : (n.rename new).entries = n.entries :=
  entries_mapInfo _ n

@[simp] theorem info_setContent (text : String) (n : Node) : (n.setContent text).info = n.info := by
  cases n <;> rfl

@[simp] theorem name_setContent (text : String) (n : Node) : (n.setContent text).name = n.name := by
  cases n <;> rfl

@[simp] theorem isDir_setContent (text : String) (n : Node) : (n.setContent text).isDir = n.isDir := by
  cases n <;> rfl

@[simp] theorem entries_setContent (text : String) (n : Node) : (n.setContent text).entries = n.entries := by
  cases n <;> rfl

@[simp] theorem info_mapEntries (g : List Node → List Node) (n : Node) : (n.mapEntries g).info = n.info := by
  cases n <;> rfl

@[simp] theorem name_mapEntries (g : List Node → List Node) (n : Node) : (n.mapEntries g).name = n.name := by
  simp [name]

@[simp] theorem isDir_mapEntries (g : List Node → List Node) (n : Node) :
    (n.mapEntries g).isDir = n.isDir := by
  cases n <;> rfl

theorem entries_mapEntries (g : List Node → List Node) (h : n.isDir = true) :
    (n.mapEntries g).entries = g n.entries := by
  cases n with
  | file i c => cases h
  | dir i es => rfl

@[simp] theorem child?_file (i : Info) (c p : String) : (file i c).child? p = none := rfl

@[simp] theorem child?_touch (time : Float) (n : Node) (p : String) : (n.touch time).child? p = n.child? p := by
  simp [child?]

@[simp] theorem child?_rename (new : String) (n : Node) (p : String) :
    (n.rename new).child? p = n.child? p := by
  simp [child?]

@[simp] theorem child?_mapInfo (g : Info → Info) (n : Node) (p : String) :
    (n.mapInfo g).child? p = n.child? p := by
  simp [child?]

@[simp] theorem child?_setContent (text : String) (n : Node) (p : String) :
    (n.setContent text).child? p = n.child? p := by
  simp [child?]

theorem isDir_of_child? {p : String} (h : n.child? p = some e) : n.isDir = true := by
  cases n with
  | file i c => cases h
  | dir i es => rfl

theorem name_of_child? {p : String} (h : n.child? p = some e) : e.name = p := by
  simpa using List.find?_some h

theorem mem_of_child? {p : String} (h : n.child? p = some e) : e ∈ n.entries := List.mem_of_find?_eq_some h

theorem child?_putEntry (hDir : n.isDir = true) (hOrder : Keyed.Ordered Node.name n.entries) (p : String) :
    (n.putEntry e).child? p = if e.name = p then some e else n.child? p := by
  rw [child?, putEntry, entries_mapEntries _ hDir]
  exact Keyed.find?_insert hOrder p

theorem child?_dropEntry (name p : String) (n : Node) :
    (n.dropEntry name).child? p = if p = name then none else n.child? p := by
  cases n with
  | file i c => simp [child?, dropEntry, mapEntries, entries]
  | dir i es => exact Keyed.find?_erase name p es

@[simp] theorem get?_nil (n : Node) : n.get? [] = some n := rfl

theorem get?_cons (n : Node) (p : String) (ps : List String) :
    n.get? (p :: ps) = (n.child? p).bind (·.get? ps) := rfl

theorem get?_append (n : Node) (ps qs : List String) :
    n.get? (ps ++ qs) = (n.get? ps).bind (·.get? qs) := by
  induction ps generalizing n with
  | nil => rfl
  | cons p ps ih =>
    simp only [List.cons_append, get?_cons, Option.bind_assoc]
    exact congrArg _ (funext fun e => ih e)

theorem get?_concat (n : Node) (ps : List String) (p : String) :
    n.get? (ps ++ [p]) = (n.get? ps).bind (·.child? p) := by
  simp [get?_append, get?_cons]

theorem isDir_of_get? {ps : List String} (hm : n.get? ps = some m) (hne : ps ≠ []) : n.isDir = true := by
  cases ps with
  | nil => exact absurd rfl hne
  | cons p ps =>
    rw [get?_cons] at hm
    obtain ⟨e, he, -⟩ := Option.bind_eq_some_iff.mp hm
    exact isDir_of_child? he

theorem name_of_get?_concat {ps : List String} {p : String} (h : n.get? (ps ++ [p]) = some m) : m.name = p := by
  rw [get?_concat] at h
  obtain ⟨parent, -, hChild⟩ := Option.bind_eq_some_iff.mp h
  exact name_of_child? hChild

def KeepsName (f : Node → Node) : Prop := ∀ n, (f n).name = n.name

theorem name_modify (hf : KeepsName f) (ps : List String) (n : Node) : (modify f ps n).name = n.name := by
  cases ps with
  | nil => exact hf n
  | cons p ps => simp [modify]

theorem child?_modify (hf : KeepsName f) (p : String) (ps : List String) (n : Node) (q : String) :
    (modify f (p :: ps) n).child? q = if q = p then (n.child? q).map (modify f ps) else n.child? q := by
  cases n with
  | file i c => simp [modify, mapEntries]
  | dir i es =>
    simp only [modify, mapEntries, child?, entries]
    induction es with
    | nil => simp
    | cons e es ih =>
      have hName : (if e.name == p then modify f ps e else e).name = e.name := by
        split
        · exact name_modify hf ps e
        · rfl
      rw [List.map_cons, Keyed.find?_cons, Keyed.find?_cons, hName]
      by_cases hq : e.name = q
      · subst hq
        by_cases hp : e.name = p <;> simp [hp]
      · rw [if_neg hq, if_neg hq]
        exact ih

theorem get?_modify_append (hf : KeepsName f) (ps qs : List String) (n : Node) :
    (modify f ps n).get? (ps ++ qs) = (n.get? ps).bind fun m => (f m).get? qs := by
  induction ps generalizing n with
  | nil => rfl
  | cons p ps ih =>
    rw [List.cons_append, get?_cons, child?_modify hf, if_pos rfl, get?_cons]
    cases n.child? p with
    | none => rfl
    | some e => exact ih e

theorem get?_modify_elsewhere (hf : KeepsName f) {ps qs : List String} (h : ¬ps <+: qs) (n : Node) :
    (modify f ps n).get? qs =
      (n.get? qs).map fun m => if qs <+: ps then modify f (ps.drop qs.length) m else m := by
  induction ps generalizing n qs with
  | nil => exact absurd List.nil_prefix h
  | cons p ps ih =>
    cases qs with
    | nil => simp
    | cons q qs =>
      rw [get?_cons, get?_cons, child?_modify hf]
      by_cases hq : q = p
      · subst hq
        have hps : ¬ps <+: qs := fun hps => h (List.cons_prefix_cons.mpr ⟨rfl, hps⟩)
        rw [if_pos rfl]
        cases n.child? q with
        | none => rfl
        | some e => simpa [List.cons_prefix_cons] using ih hps e
      · have hpq : ¬q :: qs <+: p :: ps := fun hpq => hq (List.cons_prefix_cons.mp hpq).1
        simp [hq, hpq]

def isDirAt (n : Node) (ps : List String) : Bool :=
  match n.get? ps with
  | some m => m.isDir
  | none => false

theorem isDirAt_iff {ps : List String} : n.isDirAt ps = true ↔ ∃ m, n.get? ps = some m ∧ m.isDir = true := by
  unfold isDirAt
  split <;> simp_all

theorem isDirAt_cons_iff {p : String} {ps : List String} :
    n.isDirAt (p :: ps) = true ↔ ∃ e, n.child? p = some e ∧ e.isDirAt ps = true := by
  simp only [isDirAt, get?_cons]
  cases n.child? p <;> simp

theorem isDir_of_isDirAt {ps : List String} (h : n.isDirAt ps = true) : n.isDir = true := by
  cases ps with
  | nil => exact h
  | cons p ps =>
    obtain ⟨e, he, -⟩ := isDirAt_cons_iff.mp h
    exact isDir_of_child? he

def kindAt (n : Node) (ps : List String) : Option NodeKind := (n.get? ps).map kind

theorem kind_eq_dir_iff : n.kind = .dir ↔ n.isDir = true := by
  cases n <;> simp [kind, isDir]

theorem kind_eq_file_iff : n.kind = .file ↔ n.isDir = false := by
  cases n <;> simp [kind, isDir]

theorem exists_file (h : n.kind = .file) : ∃ i c, n = file i c := by
  cases n with
  | file i c => exact ⟨i, c, rfl⟩
  | dir i es => cases h

theorem kind_of_isDir_eq (h : m.isDir = n.isDir) : m.kind = n.kind := by
  cases m <;> cases n <;> simp_all [kind, isDir]

@[simp] theorem kind_mapEntries (g : List Node → List Node) (n : Node) : (n.mapEntries g).kind = n.kind :=
  kind_of_isDir_eq (isDir_mapEntries g n)

theorem isDirAt_iff_kindAt {ps : List String} : n.isDirAt ps = true ↔ n.kindAt ps = some .dir := by
  simp only [isDirAt_iff, kindAt, Option.map_eq_some_iff, kind_eq_dir_iff]

@[simp] theorem kindAt_nil (n : Node) : n.kindAt [] = some n.kind := rfl

theorem kindAt_cons (n : Node) (p : String) (ps : List String) :
    n.kindAt (p :: ps) = (n.child? p).bind (·.kindAt ps) := by
  rw [kindAt, get?_cons, Option.map_bind]
  rfl

theorem kindAt_append (n : Node) (ps qs : List String) :
    n.kindAt (ps ++ qs) = (n.get? ps).bind (·.kindAt qs) := by
  rw [kindAt, get?_append, Option.map_bind]
  rfl

theorem kindAt_of_get? {ps : List String} (hm : n.get? ps = some m) (hDir : m.isDir = true) :
    n.kindAt ps = some .dir := by
  rw [kindAt, hm, Option.map_some, kind_eq_dir_iff.mpr hDir]

/-- Above a node there are directories. -/
theorem kindAt_above {ps : List String} {q : String} {qs : List String}
    (h : n.kindAt (ps ++ q :: qs) ≠ none) : n.kindAt ps = some .dir := by
  rw [kindAt_append] at h
  obtain ⟨k, hk⟩ := Option.ne_none_iff_exists'.mp h
  obtain ⟨m, hm, hk⟩ := Option.bind_eq_some_iff.mp hk
  rw [kindAt_cons] at hk
  obtain ⟨e, he, -⟩ := Option.bind_eq_some_iff.mp hk
  exact kindAt_of_get? hm (isDir_of_child? he)

theorem kindAt_of_ne {ps qs : List String} (hPrefix : ps <+: qs) (hne : ps ≠ qs)
    (h : n.kindAt qs ≠ none) : n.kindAt ps = some .dir := by
  obtain ⟨rest, rfl⟩ := hPrefix
  cases rest with
  | nil => exact absurd (List.append_nil ps).symm hne
  | cons q rest => exact kindAt_above h

theorem not_prefix_of_kindAt {ps qs : List String} (h : n.kindAt qs ≠ none) (hFree : n.kindAt ps = none) :
    ¬ps <+: qs := by
  intro hPrefix
  by_cases hEq : ps = qs
  · exact h (hEq ▸ hFree)
  · rw [kindAt_of_ne hPrefix hEq h] at hFree
    cases hFree

/-- Nodes of one kind whose entries have the same nodes below them have the same nodes below them. -/
theorem kindAt_congr (hDir : m.isDir = n.isDir) (hChild : ∀ p, m.child? p = n.child? p) (ps : List String) :
    m.kindAt ps = n.kindAt ps := by
  cases ps with
  | nil => rw [kindAt_nil, kindAt_nil, kind_of_isDir_eq hDir]
  | cons p ps => rw [kindAt_cons, kindAt_cons, hChild]

theorem kindAt_modify_append (hf : KeepsName f) (ps qs : List String) (n : Node) :
    (modify f ps n).kindAt (ps ++ qs) = (n.get? ps).bind fun m => (f m).kindAt qs := by
  rw [kindAt, get?_modify_append hf, Option.map_bind]
  rfl

theorem kindAt_modify_elsewhere (hf : KeepsName f) {ps qs : List String} (h : ¬ps <+: qs) (n : Node) :
    (modify f ps n).kindAt qs = n.kindAt qs := by
  rw [kindAt, get?_modify_elsewhere hf h, Option.map_map, kindAt]
  congr 1
  funext m
  rw [Function.comp_apply]
  split
  · rename_i hPrefix
    obtain ⟨rest, rfl⟩ := hPrefix
    rw [List.drop_left]
    cases rest with
    | nil => exact absurd (by simp) h
    | cons r rest => exact kind_mapEntries _ m
  · rfl

/-- A change that keeps the nodes below its place in their kinds keeps all nodes in theirs. -/
theorem kindAt_modify (hf : KeepsName f) (hKeep : ∀ m rs, (f m).kindAt rs = m.kindAt rs) (ps qs : List String)
    (n : Node) : (modify f ps n).kindAt qs = n.kindAt qs := by
  by_cases hPrefix : ps <+: qs
  · obtain ⟨rs, rfl⟩ := hPrefix
    rw [kindAt_modify_append hf, kindAt_append]
    simp only [hKeep]
  · exact kindAt_modify_elsewhere hf hPrefix n

end VirtualShell.Node
