import VirtualShell.Proofs.Snapshot.Fields

/-!
# What a description describes

A description whose fields are of the right types describes one draft, whether or not the draft obeys the
rules. It is accepted just when the draft does, a node with all that is below it (`read_eq_ok_iff`).
-/
namespace VirtualShell.Draft
set_option autoImplicit false

/-- The node at the end of a chain of names. -/
inductive At : Draft → List String → Draft → Prop where
  | here {d : Draft} : At d [] d
  | inside {d c x : Draft} {ps : List String} : c ∈ d.children → At c ps x → At d (c.name :: ps) x

/-- What a node must be like, apart from what is below its children. -/
structure Lawful (d : Draft) : Prop where
  permissions : List.Forall₂ (fun c letter => c = letter ∨ c = '-') d.info.permissions.toList "rwxrwxrwx".toList
  file : d.kind = .file → d.children = []
  dir : d.kind = .dir → d.content = ""
  distinct : (d.children.map name).Nodup
  names : ∀ c ∈ d.children, '/' ∉ c.name.toList ∧ c.name ≠ "." ∧ c.name ≠ ".."

def Orderly (d : Draft) : Prop := ∀ ps x, d.At ps x → x.Lawful

/-- No chain of names is so long that there is no room for the nodes along it. -/
def Fits (room : Nat) (d : Draft) : Prop := ∀ ps x, d.At ps x → ps.length < room

structure NodeFields (fields : Json.Fields) (kind : NodeKind) (i : Info) (content : String) : Prop where
  name : Has fields "name" IsName i.name
  kind : Has fields "type" IsKind kind
  permissions : Has fields "permissions" IsText i.permissions
  owner : Has fields "owner" IsName i.owner
  group : Has fields "group" IsName i.group
  modified : HasOr fields "modified_at" 0.0 IsNumber i.modified
  content : HasOr fields "content" "" IsText content

mutual

/-- The fields are of the right types, and the draft says what they say. -/
def Describes : Draft → Json → Prop
  | mk kind i content ds, j => ∃ fields, j = .object fields ∧ NodeFields fields kind i content ∧
    match Json.Fields.get? fields "children" with
    | some j => ∃ js, j = .array js ∧ DescribesAll ds js
    | none => ds = []

def DescribesAll : List Draft → List Json → Prop
  | [], js => js = []
  | d :: ds, js => ∃ j rest, js = j :: rest ∧ Describes d j ∧ DescribesAll ds rest

end

/-- What holds of a node if it holds of its children, holds of all nodes. -/
@[elab_as_elim] theorem induct {motive : Draft → Prop}
    (mk : ∀ kind i content ds, (∀ d ∈ ds, motive d) → motive (.mk kind i content ds)) (d : Draft) : motive d := by
  refine Draft.rec (motive_1 := motive) (motive_2 := fun ds => ∀ d ∈ ds, motive d) mk ?_ ?_ d
  · exact fun d hd => nomatch hd
  · intro d ds hHead hTail x hx
    rcases List.mem_cons.mp hx with rfl | hx
    · exact hHead
    · exact hTail x hx

theorem orderly_iff {d : Draft} : d.Orderly ↔ d.Lawful ∧ ∀ c ∈ d.children, c.Orderly := by
  constructor
  · intro h
    exact ⟨h [] d .here, fun c hc ps x hx => h (c.name :: ps) x (.inside hc hx)⟩
  · rintro ⟨hLawful, hChildren⟩ ps x hx
    cases hx with
    | here => exact hLawful
    | inside hc hx => exact hChildren _ hc _ x hx

theorem not_fits_zero (d : Draft) : ¬d.Fits 0 := fun h => Nat.not_lt_zero _ (h [] d .here)

theorem fits_succ_iff {room : Nat} {d : Draft} : d.Fits (room + 1) ↔ ∀ c ∈ d.children, c.Fits room := by
  constructor
  · exact fun h c hc ps x hx => Nat.lt_of_succ_lt_succ (h (c.name :: ps) x (.inside hc hx))
  · intro h ps x hx
    cases hx with
    | here => exact Nat.succ_pos room
    | inside hc hx => exact Nat.succ_lt_succ (h _ hc _ x hx)

theorem isPermissions_iff {s : String} : isPermissions s = true ↔
    List.Forall₂ (fun c letter => c = letter ∨ c = '-') s.toList "rwxrwxrwx".toList := by
  rw [isPermissions, List.forall₂_iff_zip, Bool.and_eq_true, beq_iff_eq]
  have hLength : "rwxrwxrwx".toList.length = 9 := by decide
  simp only [hLength, List.all_eq_true, Bool.or_eq_true, beq_iff_eq, Prod.forall]

theorem childFault?_eq_none_iff {parent : String} {seen : List String} {ds : List Draft} :
    childFault? parent seen ds = none ↔ (ds.map name).Nodup ∧ (∀ d ∈ ds, d.name ∉ seen) ∧
      ∀ d ∈ ds, '/' ∉ d.name.toList ∧ d.name ≠ "." ∧ d.name ≠ ".." := by
  induction ds generalizing seen with
  | nil => simp [childFault?]
  | cons d ds ih =>
    rw [childFault?]
    by_cases hSeen : d.name ∈ seen
    · simp [hSeen]
    · have hCheck : (d.name.toList.contains '/' || d.name == "." || d.name == "..") = true ↔
          ¬('/' ∉ d.name.toList ∧ d.name ≠ "." ∧ d.name ≠ "..") := by
        simp only [Bool.or_eq_true, List.contains_iff_mem, beq_iff_eq]
        tauto
      rw [if_neg (by simpa using hSeen)]
      split
      · rename_i hBad
        constructor
        · rintro ⟨⟩
        · exact fun h => absurd (h.2.2 d List.mem_cons_self) (hCheck.mp hBad)
      · rename_i hGood
        have hName : '/' ∉ d.name.toList ∧ d.name ≠ "." ∧ d.name ≠ ".." := not_not.mp fun h => hGood (hCheck.mpr h)
        rw [ih, List.map_cons, List.nodup_cons, List.forall_mem_cons, List.forall_mem_cons]
        simp only [List.mem_cons, not_or, List.mem_map, not_exists, not_and]
        constructor
        · rintro ⟨hNodup, hNew, hNames⟩
          exact ⟨⟨fun x hx => (hNew x hx).1, hNodup⟩, ⟨hSeen, fun x hx => (hNew x hx).2⟩, hName, hNames⟩
        · rintro ⟨⟨hOther, hNodup⟩, ⟨-, hNew⟩, -, hNames⟩
          exact ⟨hNodup, fun x hx => ⟨hOther x hx, hNew x hx⟩, hNames⟩

theorem ruleFault?_eq_none_iff {d : Draft} : d.ruleFault? = none ↔ (d.kind = .file → d.children = []) ∧
    (d.kind = .dir → d.content = "") ∧ (d.children.map name).Nodup ∧
      ∀ c ∈ d.children, '/' ∉ c.name.toList ∧ c.name ≠ "." ∧ c.name ≠ ".." := by
  have hChildren : childFault? d.name [] d.children = none ↔ _ := childFault?_eq_none_iff
  rw [ruleFault?]
  cases hKind : d.kind with
  | file =>
    cases hList : d.children with
    | nil => simp [childFault?]
    | cons c cs => simp
  | dir =>
    by_cases hContent : d.content = ""
    · simpa [hContent] using hChildren
    · simp [hContent]

theorem checked_eq_ok_iff {place : Place} {d x : Draft} : checked place d = .ok x ↔ x = d ∧ d.ruleFault? = none := by
  rw [checked]
  cases d.ruleFault? <;> simp [eq_comm]

theorem readChildrenOf_eq (room : Nat) (place : Place) (fields : Json.Fields) : readChildrenOf room place fields =
    match fields.get? "children" with
    | some j => readChildren room (place ++ ["children"]) j
    | none => .ok [] := by
  induction fields with
  | nil => rfl
  | cons f fields ih =>
    obtain ⟨key, j⟩ := f
    rw [readChildrenOf, ih, Json.Fields.get?, Json.Fields.get?, List.find?_cons]
    by_cases hKey : key = "children"
    · simp [hKey]
    · simp [beq_false_of_ne hKey]

section

variable {room : Nat} {ds : List Draft} (h : ∀ d ∈ ds, ∀ place j,
  Draft.read room place j = .ok d ↔ d.Describes j ∧ d.Orderly ∧ d.Fits room)

include h

theorem readChildrenFrom_eq_ok_iff (place : Place) (i : Nat) (js : List Json) :
    readChildrenFrom room place i js = .ok ds ↔ DescribesAll ds js ∧ ∀ d ∈ ds, d.Orderly ∧ d.Fits room := by
  induction ds generalizing i js with
  | nil =>
    cases js with
    | nil => simp [readChildrenFrom, DescribesAll]
    | cons j js =>
      rw [readChildrenFrom]
      simp only [Result.bind_eq_ok_iff]
      constructor
      · rintro ⟨x, -, xs, -, ⟨⟩⟩
      · rintro ⟨⟨⟩, -⟩
  | cons d ds ih =>
    obtain ⟨hd, hds⟩ := List.forall_mem_cons.mp h
    cases js with
    | nil => simp [readChildrenFrom, DescribesAll]
    | cons j js =>
      rw [readChildrenFrom, Result.bind_eq_ok_iff]
      simp only [Result.bind_eq_ok_iff]
      constructor
      · rintro ⟨x, hx, xs, hxs, ⟨⟩⟩
        obtain ⟨hDescribes, hHere⟩ := (hd _ j).mp hx
        obtain ⟨hAll, hRest⟩ := (ih hds _ js).mp hxs
        exact ⟨⟨j, js, rfl, hDescribes, hAll⟩, List.forall_mem_cons.mpr ⟨hHere, hRest⟩⟩
      · rintro ⟨⟨_, _, ⟨⟩, hDescribes, hAll⟩, hAllowed⟩
        obtain ⟨hHere, hRest⟩ := List.forall_mem_cons.mp hAllowed
        exact ⟨d, (hd _ j).mpr ⟨hDescribes, hHere⟩, ds, (ih hds _ js).mpr ⟨hAll, hRest⟩, rfl⟩

theorem readChildrenOf_eq_ok_iff (place : Place) (fields : Json.Fields) :
    readChildrenOf room place fields = .ok ds ↔
      (match fields.get? "children" with
        | some j => ∃ js, j = .array js ∧ DescribesAll ds js
        | none => ds = []) ∧ ∀ d ∈ ds, d.Orderly ∧ d.Fits room := by
  rw [readChildrenOf_eq]
  cases fields.get? "children" with
  | none =>
    constructor
    · rintro ⟨⟩
      exact ⟨rfl, fun d hd => nomatch hd⟩
    · rintro ⟨rfl, -⟩
      rfl
  | some j =>
    cases j with
    | array js =>
      simp only [readChildren, readChildrenFrom_eq_ok_iff h]
      simp
    | _ => simp [readChildren, faultAt]

end

/-- A node is read just when it describes something that obeys the rules and for which there is room. -/
theorem read_eq_ok_iff (d : Draft) : ∀ room place j,
    Draft.read room place j = .ok d ↔ d.Describes j ∧ d.Orderly ∧ d.Fits room := by
  induction d using induct with
  | mk kind i content ds ih =>
    intro room place j
    cases room with
    | zero => simp [Draft.read, faultAt, not_fits_zero]
    | succ room =>
      have hChildrenIff := readChildrenOf_eq_ok_iff (fun d hd => ih d hd room) place
      cases j with
      | object fields =>
        rw [Draft.read, Describes, orderly_iff, fits_succ_iff]
        simp only [Result.bind_eq_ok_iff, required_eq_ok_iff reads_nonemptyText, required_eq_ok_iff reads_kindText,
          required_eq_ok_iff reads_permissionText, defaulted_eq_ok_iff reads_number, defaulted_eq_ok_iff reads_text,
          checked_eq_ok_iff]
        constructor
        · rintro ⟨name, hName, kind, hKind, permissions, ⟨jp, hField, hText, hForm⟩, owner, hOwner, group, hGroup,
            modified, hModified, content, hContent, ds, hChildren, ⟨⟩, hRules⟩
          obtain ⟨hDescribed, hAllowed⟩ := (hChildrenIff fields).mp hChildren
          obtain ⟨hFile, hDir, hDistinct, hNames⟩ := ruleFault?_eq_none_iff.mp hRules
          exact ⟨⟨fields, rfl, ⟨hName, hKind, ⟨jp, hField, hText⟩, hOwner, hGroup, hModified, hContent⟩, hDescribed⟩,
            ⟨⟨isPermissions_iff.mp hForm, hFile, hDir, hDistinct, hNames⟩, fun d hd => (hAllowed d hd).1⟩,
            fun d hd => (hAllowed d hd).2⟩
        · rintro ⟨⟨_, ⟨⟩, hFields, hDescribed⟩, ⟨hLawful, hOrderly⟩, hFits⟩
          obtain ⟨jp, hField, hText⟩ := hFields.permissions
          exact ⟨_, hFields.name, _, hFields.kind, _, ⟨jp, hField, hText, isPermissions_iff.mpr hLawful.permissions⟩,
            _, hFields.owner, _, hFields.group, _, hFields.modified, _, hFields.content, _,
            (hChildrenIff fields).mpr ⟨hDescribed, fun d hd => ⟨hOrderly d hd, hFits d hd⟩⟩, rfl,
            ruleFault?_eq_none_iff.mpr ⟨hLawful.file, hLawful.dir, hLawful.distinct, hLawful.names⟩⟩
      | _ => simp [Draft.read, Describes, faultAt]

theorem NodeFields.unique {fields : Json.Fields} {kind kind' : NodeKind} {i i' : Info} {content content' : String}
    (h : NodeFields fields kind i content) (h' : NodeFields fields kind' i' content') :
    kind = kind' ∧ i = i' ∧ content = content' := by
  obtain ⟨name, permissions, owner, group, modified⟩ := i
  obtain ⟨name', permissions', owner', group', modified'⟩ := i'
  have hName : name = name' := h.name.unique reads_nonemptyText.leftUnique h'.name
  have hPermissions : permissions = permissions' := h.permissions.unique reads_text.leftUnique h'.permissions
  have hOwner : owner = owner' := h.owner.unique reads_nonemptyText.leftUnique h'.owner
  have hGroup : group = group' := h.group.unique reads_nonemptyText.leftUnique h'.group
  have hModified : modified = modified' := h.modified.unique reads_number.leftUnique h'.modified
  refine ⟨h.kind.unique reads_kindText.leftUnique h'.kind, ?_, h.content.unique reads_text.leftUnique h'.content⟩
  rw [hName, hPermissions, hOwner, hGroup, hModified]

theorem describesAll_unique {ds es : List Draft} {js : List Json}
    (h : ∀ d ∈ ds, ∀ e j, d.Describes j → e.Describes j → d = e)
    (hds : DescribesAll ds js) (hes : DescribesAll es js) : ds = es := by
  induction ds generalizing es js with
  | nil =>
    cases hds
    cases es with
    | nil => rfl
    | cons e es => obtain ⟨_, _, ⟨⟩, -⟩ := hes
  | cons d ds ih =>
    obtain ⟨hd, hRest⟩ := List.forall_mem_cons.mp h
    obtain ⟨j, js, rfl, hHere, hAll⟩ := hds
    cases es with
    | nil => cases hes
    | cons e es =>
      obtain ⟨_, _, ⟨⟩, hHere', hAll'⟩ := hes
      rw [hd e j hHere hHere', ih hRest hAll hAll']

/-- There is one draft at most that a description describes. -/
theorem describes_unique (d : Draft) : ∀ e j, d.Describes j → e.Describes j → d = e := by
  induction d using induct with
  | mk kind i content ds ih =>
    rintro ⟨kind', i', content', es⟩ j ⟨fields, rfl, hFields, hChildren⟩ ⟨_, ⟨⟩, hFields', hChildren'⟩
    obtain ⟨rfl, rfl, rfl⟩ := hFields.unique hFields'
    have hSame : ds = es := by
      cases hField : Json.Fields.get? fields "children" with
      | none =>
        rw [hField] at hChildren hChildren'
        rw [hChildren, hChildren']
      | some j =>
        rw [hField] at hChildren hChildren'
        obtain ⟨js, rfl, hAll⟩ := hChildren
        obtain ⟨_, ⟨⟩, hAll'⟩ := hChildren'
        exact describesAll_unique ih hAll hAll'
    rw [hSame]

theorem DescribesAll.exists_of_mem {ds : List Draft} {js : List Json} {d : Draft} (h : DescribesAll ds js)
    (hd : d ∈ ds) : ∃ j, d.Describes j := by
  induction ds generalizing js with
  | nil => cases hd
  | cons e es ih =>
    obtain ⟨j, js, rfl, hHere, hAll⟩ := h
    rcases List.mem_cons.mp hd with rfl | hd
    · exact ⟨j, hHere⟩
    · exact ih hAll hd

theorem Describes.exists_of_mem {d c : Draft} {j : Json} (h : d.Describes j) (hc : c ∈ d.children) :
    ∃ j, c.Describes j := by
  obtain ⟨kind, i, content, ds⟩ := d
  obtain ⟨fields, rfl, -, hChildren⟩ := h
  split at hChildren
  · obtain ⟨js, -, hAll⟩ := hChildren
    exact hAll.exists_of_mem hc
  · cases hChildren
    cases hc

/-- Every node of a description has a name, an owner and a group. -/
theorem Describes.named {d : Draft} {j : Json} (h : d.Describes j) :
    d.name ≠ "" ∧ d.info.owner ≠ "" ∧ d.info.group ≠ "" := by
  obtain ⟨kind, i, content, ds⟩ := d
  obtain ⟨fields, -, hFields, -⟩ := h
  obtain ⟨_, -, -, hName⟩ := hFields.name
  obtain ⟨_, -, -, hOwner⟩ := hFields.owner
  obtain ⟨_, -, -, hGroup⟩ := hFields.group
  exact ⟨hName, hOwner, hGroup⟩

theorem at_cons_iff {d x : Draft} {p : String} {ps : List String} :
    d.At (p :: ps) x ↔ ∃ c ∈ d.children, c.name = p ∧ c.At ps x := by
  constructor
  · intro h
    cases h with
    | inside hc hx => exact ⟨_, hc, rfl, hx⟩
  · rintro ⟨c, hc, rfl, hx⟩
    exact .inside hc hx

/-- Where names are distinct, the first child of a name is the only one. -/
theorem find?_eq_some_iff {cs : List Draft} {c : Draft} {p : String} (h : (cs.map name).Nodup) :
    cs.find? (fun c => c.name == p) = some c ↔ c ∈ cs ∧ c.name = p := by
  induction cs with
  | nil => simp
  | cons e es ih =>
    rw [List.map_cons, List.nodup_cons] at h
    obtain ⟨hOther, h⟩ := h
    rw [List.find?_cons]
    by_cases hName : e.name = p
    · subst hName
      simp only [beq_self_eq_true, Option.some.injEq, List.mem_cons]
      constructor
      · rintro rfl
        exact ⟨.inl rfl, rfl⟩
      · rintro ⟨rfl | hc, hSame⟩
        · rfl
        · exact absurd (List.mem_map.mpr ⟨c, hc, hSame⟩) hOther
    · rw [beq_false_of_ne hName]
      dsimp only
      rw [ih h, List.mem_cons]
      constructor
      · exact fun ⟨hc, hSame⟩ => ⟨.inr hc, hSame⟩
      · rintro ⟨rfl | hc, hSame⟩
        · exact absurd hSame hName
        · exact ⟨hc, hSame⟩

/-- A way through directories, one step at a time. -/
theorem Lawful.way_cons_iff {d : Draft} {p : String} {ps : List String} (h : d.Lawful) :
    (∀ qs, qs <+: p :: ps → ∃ x, d.At qs x ∧ x.kind = .dir) ↔ d.kind = .dir ∧
      ∃ c, d.children.find? (fun c => c.name == p) = some c ∧ ∀ qs, qs <+: ps → ∃ x, c.At qs x ∧ x.kind = .dir := by
  constructor
  · intro hWay
    obtain ⟨_, ⟨⟩, hDir⟩ := hWay [] List.nil_prefix
    obtain ⟨_, hAt, -⟩ := hWay [p] (List.cons_prefix_cons.mpr ⟨rfl, List.nil_prefix⟩)
    obtain ⟨c, hc, hName, -⟩ := at_cons_iff.mp hAt
    have hFind := (find?_eq_some_iff h.distinct).mpr ⟨hc, hName⟩
    refine ⟨hDir, c, hFind, fun qs hqs => ?_⟩
    obtain ⟨x, hx, hKind⟩ := hWay (p :: qs) (List.cons_prefix_cons.mpr ⟨rfl, hqs⟩)
    obtain ⟨e, he, hSame, hx⟩ := at_cons_iff.mp hx
    cases ((find?_eq_some_iff h.distinct).mpr ⟨he, hSame⟩).symm.trans hFind
    exact ⟨x, hx, hKind⟩
  · rintro ⟨hDir, c, hFind, hWay⟩ qs hqs
    obtain ⟨hc, rfl⟩ := (find?_eq_some_iff h.distinct).mp hFind
    cases qs with
    | nil => exact ⟨d, .here, hDir⟩
    | cons q qs =>
      obtain ⟨rfl, hRest⟩ := List.cons_prefix_cons.mp hqs
      obtain ⟨x, hx, hKind⟩ := hWay qs hRest
      exact ⟨x, .inside hc hx, hKind⟩

theorem leadsToDirectory_iff {d : Draft} {ps : List String} (h : d.Orderly) (hDir : d.kind = .dir) :
    Snapshot.leadsToDirectory d ps = true ↔ ∀ qs, qs <+: ps → ∃ x, d.At qs x ∧ x.kind = .dir := by
  induction ps generalizing d with
  | nil =>
    constructor
    · intro _ qs hqs
      rw [List.prefix_nil.mp hqs]
      exact ⟨d, .here, hDir⟩
    · exact fun _ => rfl
  | cons p ps ih =>
    obtain ⟨hLawful, hChildren⟩ := orderly_iff.mp h
    rw [hLawful.way_cons_iff, and_iff_right hDir, Snapshot.leadsToDirectory]
    constructor
    · intro hLeads
      split at hLeads
      · rename_i c hFind
        obtain ⟨hc, -⟩ := (find?_eq_some_iff hLawful.distinct).mp hFind
        obtain ⟨hKind, hLeads⟩ := (Bool.and_eq_true _ _).mp hLeads
        exact ⟨c, hFind, (ih (hChildren c hc) (beq_iff_eq.mp hKind)).mp hLeads⟩
      · cases hLeads
    · rintro ⟨c, hFind, hWay⟩
      obtain ⟨hc, -⟩ := (find?_eq_some_iff hLawful.distinct).mp hFind
      obtain ⟨_, ⟨⟩, hKind⟩ := hWay [] List.nil_prefix
      rw [hFind]
      simp only [hKind, beq_self_eq_true, Bool.true_and]
      exact (ih (hChildren c hc) hKind).mpr hWay

end VirtualShell.Draft
