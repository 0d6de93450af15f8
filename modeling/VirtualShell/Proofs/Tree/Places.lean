import VirtualShell.Proofs.Tree.Emptied

/-!
# What a change leaves at each place

`ownAt` is the node at a place by itself, without the nodes below it. When an entry is taken out of a directory or
put into it, every node elsewhere stays by itself what it is, but for the time of change of that directory. The nodes at
and below the place of the entry are gone, or they are those of the entry.
-/
namespace VirtualShell.Node
set_option autoImplicit false

variable {n m k e : Node} {ps qs : List String} {name : String} {time : Float} {f : Node → Node}

def ownAt (n : Node) (ps : List String) : Option Node := (n.get? ps).map bare

/-- Both trees have by itself the same node at `qs`, but for the time of change of those at the places `touched`. -/
def SameAt (time : Float) (touched : List (List String)) (n m : Node) (qs : List String) : Prop :=
  m.ownAt qs = (n.ownAt qs).map fun e => if qs ∈ touched then e.touch time else e

/-- `m` is the tree `n` after the node at `place` was taken out of its directory. -/
structure TakenOut (time : Float) (place : List String) (n m : Node) : Prop where
  gone : ∀ rest, m.get? (place ++ rest) = none
  elsewhere : ∀ qs, ¬place <+: qs → SameAt time [place.dropLast] n m qs

/-- `m` is the tree `n` after the node at `old` was moved to `new`, under the name that the place gives it. -/
structure Moved (time : Float) (old new : List String) (name : String) (n m : Node) : Prop where
  below : ∀ rest, m.get? (new ++ rest) = (n.get? (old ++ rest)).map fun e => if rest = [] then e.rename name else e
  gone : ∀ rest, m.get? (old ++ rest) = none
  elsewhere : ∀ qs, ¬old <+: qs → ¬new <+: qs → SameAt time [old.dropLast, new.dropLast] n m qs

theorem bare_mapInfo (g : Info → Info) (n : Node) : (n.mapInfo g).bare = n.bare.mapInfo g := by
  cases n <;> rfl

theorem bare_touch (time : Float) (n : Node) : (n.touch time).bare = n.bare.touch time := bare_mapInfo _ n

theorem touch_touch (time : Float) (n : Node) : (n.touch time).touch time = n.touch time := by
  cases n <;> rfl

theorem ownAt_eq_none_iff : n.ownAt qs = none ↔ n.get? qs = none := Option.map_eq_none_iff

theorem kindAt_eq_map_ownAt (n : Node) (qs : List String) : n.kindAt qs = (n.ownAt qs).map kind := by
  rw [kindAt, ownAt, Option.map_map]
  congr 1
  funext e
  exact (kind_bare e).symm

namespace SameAt

variable {touched more : List (List String)}

theorem trans (h : SameAt time touched n m qs) (h' : SameAt time more m k qs) :
    SameAt time (touched ++ more) n k qs := by
  rw [SameAt, h', h, Option.map_map]
  congr 1
  funext e
  by_cases hFirst : qs ∈ touched <;> by_cases hLater : qs ∈ more <;> simp [hFirst, hLater, touch_touch]

theorem get?_eq_none (h : SameAt time touched n m qs) (hNone : n.get? qs = none) : m.get? qs = none := by
  rw [← ownAt_eq_none_iff, h, ownAt, hNone]
  rfl

theorem ownAt_eq (h : SameAt time touched n m qs) (h' : SameAt time touched n k qs) : m.ownAt qs = k.ownAt qs :=
  Eq.trans h h'.symm

theorem kindAt_eq (h : SameAt time touched n m qs) : m.kindAt qs = n.kindAt qs := by
  rw [kindAt_eq_map_ownAt, kindAt_eq_map_ownAt, h, Option.map_map]
  congr 1
  funext e
  rw [Function.comp_apply]
  split
  · exact kind_of_isDir_eq (isDir_touch time e)
  · rfl

end SameAt

theorem sameAt_nil_iff : SameAt time [] n m qs ↔ m.ownAt qs = n.ownAt qs := by
  simp [SameAt]

theorem get?_modify_here (hf : KeepsName f) (ps : List String) (n : Node) :
    (n.modify f ps).get? ps = (n.get? ps).map f := by
  have h := get?_modify_append hf ps [] n
  rw [List.append_nil] at h
  rw [h]
  cases n.get? ps <;> rfl

theorem ownAt_modify_elsewhere (hf : KeepsName f) (h : ¬ps <+: qs) (n : Node) :
    (n.modify f ps).ownAt qs = n.ownAt qs := by
  rw [ownAt, get?_modify_elsewhere hf h, Option.map_map, ownAt]
  congr 1
  funext m
  rw [Function.comp_apply]
  split
  · rename_i hPrefix
    obtain ⟨rest, rfl⟩ := hPrefix
    rw [List.drop_left]
    cases rest with
    | nil => exact absurd (by simp) h
    | cons r rest => exact bare_mapEntries _ m
  · rfl

theorem get?_below_none (h : n.get? ps = none) (hPrefix : ps <+: qs) : n.get? qs = none := by
  obtain ⟨rest, rfl⟩ := hPrefix
  rw [get?_append, h, Option.bind_none]

theorem get?_below_file {i : Info} {c : String} (h : n.get? ps = some (.file i c)) (hPrefix : ps <+: qs)
    (hne : qs ≠ ps) : n.get? qs = none := by
  obtain ⟨rest, rfl⟩ := hPrefix
  cases rest with
  | nil => exact absurd (List.append_nil ps) hne
  | cons p rest =>
    rw [get?_append, h]
    rfl

/-- A file that stays a file shows nowhere but at its own place. -/
theorem ownAt_modify_file {i : Info} {c : String} (hf : KeepsName f) (hFile : n.get? ps = some (.file i c))
    (hStays : ∃ j d, f (.file i c) = .file j d) (hne : qs ≠ ps) : (n.modify f ps).ownAt qs = n.ownAt qs := by
  by_cases hPrefix : ps <+: qs
  · obtain ⟨j, d, hChange⟩ := hStays
    have hHere : (n.modify f ps).get? ps = some (.file j d) := by
      rw [get?_modify_here hf, hFile, Option.map_some, hChange]
    rw [ownAt, ownAt, get?_below_file hHere hPrefix hne, get?_below_file hFile hPrefix hne]
  · exact ownAt_modify_elsewhere hf hPrefix n

/-- A directory that gets new entries and a new time of change is otherwise the same, and so are the entries of which
the change finds what was there before. -/
theorem sameAt_of_entries {g : List Node → List Node} (hf : KeepsName f) (hOwn : ∀ m, f m = (m.mapEntries g).touch time)
    (hEntry : ∀ m r rest, qs = ps ++ r :: rest → n.get? ps = some m → (f m).child? r = m.child? r) :
    SameAt time [ps] n (n.modify f ps) qs := by
  by_cases hPrefix : ps <+: qs
  · obtain ⟨rs, rfl⟩ := hPrefix
    cases rs with
    | nil =>
      rw [SameAt, List.append_nil, ownAt, get?_modify_here hf, ownAt]
      cases n.get? ps with
      | none => rfl
      | some m => simp [hOwn, bare_touch, bare_mapEntries]
    | cons r rest =>
      have hBelow : ps ++ r :: rest ≠ ps := by simp
      rw [SameAt, ownAt, get?_modify_append hf, ownAt, get?_append]
      cases hm : n.get? ps with
      | none => rfl
      | some m => simp [get?_cons, hEntry m r rest rfl hm]
  · have hne : qs ≠ ps := by
      rintro rfl
      exact hPrefix List.prefix_rfl
    rw [SameAt, ownAt_modify_elsewhere hf hPrefix]
    simp [hne]

theorem get?_drop_below (rest : List String) :
    (n.modify (fun m => (m.dropEntry name).touch time) ps).get? (ps ++ name :: rest) = none := by
  rw [get?_modify_append (keepsName_dropEntry name time)]
  cases n.get? ps with
  | none => rfl
  | some m => rw [Option.bind_some, get?_cons, child?_drop, if_pos rfl, Option.bind_none]

theorem sameAt_drop (h : ¬ps ++ [name] <+: qs) :
    SameAt time [ps] n (n.modify (fun m => (m.dropEntry name).touch time) ps) qs := by
  refine sameAt_of_entries (keepsName_dropEntry name time) (fun _ => rfl) ?_
  rintro m r rest rfl -
  have hr : r ≠ name := by
    rintro rfl
    exact h ⟨rest, by simp⟩
  rw [child?_drop, if_neg hr]

theorem takenOut_drop (n : Node) (ps : List String) (name : String) (time : Float) :
    TakenOut time (ps ++ [name]) n (n.modify (fun m => (m.dropEntry name).touch time) ps) := by
  refine ⟨fun rest => ?_, fun qs h => ?_⟩
  · rw [List.append_assoc, List.singleton_append]
    exact get?_drop_below rest
  · rw [List.dropLast_concat]
    exact sameAt_drop h

theorem get?_rename (new : String) (ps : List String) (n : Node) :
    (n.rename new).get? ps = (n.get? ps).map fun m => if ps = [] then m.rename new else m := by
  cases ps with
  | nil => rfl
  | cons p ps => simp [get?_cons]

/-- A place without a directory is not above another node, and so not above what lies below that one either, unless it
is below that one itself. -/
theorem not_prefix_below (hOutside : ¬qs <+: ps) (hPresent : n.kindAt qs ≠ none) (hKind : n.kindAt ps ≠ some .dir)
    (rest : List String) : ¬ps <+: qs ++ rest := by
  intro hPrefix
  rcases List.prefix_or_prefix_of_prefix hPrefix (List.prefix_append qs rest) with hAbove | hInside
  · have hne : ps ≠ qs := fun hEq => hOutside (hEq ▸ List.prefix_rfl)
    exact hKind (kindAt_of_ne hAbove hne hPresent)
  · exact hOutside hInside

section

variable (hOrder : n.Everywhere Ordered)

include hOrder

theorem get?_put_below (e : Node) (time : Float) (hDir : n.kindAt ps = some .dir) (rest : List String) :
    (n.modify (fun m => (m.putEntry e).touch time) ps).get? (ps ++ e.name :: rest) = e.get? rest := by
  obtain ⟨m, hm, hKind⟩ := Option.map_eq_some_iff.mp hDir
  rw [get?_modify_append (keepsName_putEntry e time), hm, Option.bind_some, get?_cons, child?_touch,
    child?_putEntry (kind_eq_dir_iff.mp hKind) (hOrder.get? hm).here, if_pos rfl, Option.bind_some]

theorem sameAt_put (e : Node) (time : Float) (h : ¬ps ++ [e.name] <+: qs) :
    SameAt time [ps] n (n.modify (fun m => (m.putEntry e).touch time) ps) qs := by
  refine sameAt_of_entries (keepsName_putEntry e time) (fun _ => rfl) ?_
  rintro m r rest rfl hm
  have hr : e.name ≠ r := by
    rintro rfl
    exact h ⟨rest, by simp⟩
  cases m with
  | file i c => rfl
  | dir i es => rw [child?_touch, child?_putEntry rfl (hOrder.get? hm).here, if_neg hr]

/-- An entry that is taken out can be put back anywhere outside of it, where nothing is or a file that a file
replaces. -/
theorem moved_drop_put {os ds : List String} {old new : String} (he : n.get? (os ++ [old]) = some e)
    (hDir : n.kindAt ds = some .dir) (hOutside : ¬os ++ [old] <+: ds ++ [new])
    (hFree : n.kindAt (ds ++ [new]) = none ∨ n.kindAt (ds ++ [new]) = some .file ∧ e.kind = .file) :
    Moved time (os ++ [old]) (ds ++ [new]) new n
      ((n.modify (fun m => (m.dropEntry old).touch time) os).modify
        (fun m => (m.putEntry (e.rename new)).touch time) ds) := by
  have hName : (e.rename new).name = new := name_rename new e
  have hTaken := takenOut_drop n os old time
  have hDropped : (n.modify (fun m => (m.dropEntry old).touch time) os).Everywhere Ordered := ordered_drop hOrder
  have hDir' : (n.modify (fun m => (m.dropEntry old).touch time) os).kindAt ds = some .dir := by
    rw [(hTaken.elsewhere ds fun h => hOutside (h.trans (List.prefix_append ds _))).kindAt_eq]
    exact hDir
  have hPresent : n.kindAt (os ++ [old]) ≠ none := by simp [kindAt, he]
  have hBelow : ∀ rest, ¬ds ++ [new] <+: os ++ [old] ++ rest := by
    refine not_prefix_below hOutside hPresent ?_
    rcases hFree with hNone | ⟨hFile, -⟩
    · simp [hNone]
    · simp [hFile]
  -- below the new place the second change decides, below the old one the first, and elsewhere neither shows
  refine ⟨fun rest => ?_, fun rest => ?_, fun qs hOld hNew => ?_⟩
  · have hPut := get?_put_below hDropped (e.rename new) time hDir' rest
    rw [hName] at hPut
    rw [List.append_assoc, List.singleton_append, hPut, get?_rename, get?_append, he, Option.bind_some]
  · have hPut := sameAt_put hDropped (e.rename new) time (hName.symm ▸ hBelow rest)
    exact hPut.get?_eq_none (hTaken.gone rest)
  · have hPut := sameAt_put hDropped (e.rename new) time (hName.symm ▸ hNew)
    have hBoth := (hTaken.elsewhere qs hOld).trans hPut
    rw [List.dropLast_concat, List.singleton_append] at hBoth
    rwa [List.dropLast_concat, List.dropLast_concat]

/-- What a lookup finds is what a walk meets, so that it is the same to ask something of either. -/
theorem everywhere_iff_get? {p : Node → Prop} : n.Everywhere p ↔ ∀ ps m, n.get? ps = some m → p m := by
  constructor
  · exact fun h ps m hm => (h.get? hm).here
  · intro h
    induction hOrder with
    | @intro n hn _ ih =>
      refine .intro (h [] n rfl) fun e he => ih e he fun ps m hm => h (e.name :: ps) m ?_
      have hChild : n.child? e.name = some e := (Keyed.find?_eq_some_iff hn).mpr ⟨he, rfl⟩
      rw [get?_cons, hChild]
      exact hm

end

theorem everywhere_iff_walk {p : Node → Prop} (path : String) :
    n.Everywhere p ↔ ∀ q m, (q, m) ∈ n.walk path → p m :=
  ⟨fun h _ _ hm => (h.of_mem_walk hm).here, .of_walk⟩

theorem get?_mapAll {g : Info → Info} (hName : ∀ i : Info, (g i).name = i.name) (ps : List String) (n : Node) :
    (n.mapAll g).get? ps = (n.get? ps).map (mapAll g) := by
  induction ps generalizing n with
  | nil => rfl
  | cons p ps ih =>
    rw [get?_cons, get?_cons, child?_mapAll hName]
    cases n.child? p with
    | none => rfl
    | some e => exact ih e

theorem ownAt_modify_mapInfo {g : Info → Info} (hName : ∀ i : Info, (g i).name = i.name) (n : Node) :
    (n.modify (mapInfo g) ps).ownAt qs = (n.ownAt qs).map fun e => if qs = ps then e.mapInfo g else e := by
  have hKeep : KeepsName (mapInfo g) := fun m => by rw [name, info_mapInfo, hName, name]
  by_cases hPrefix : ps <+: qs
  · obtain ⟨rest, rfl⟩ := hPrefix
    cases rest with
    | nil =>
      rw [List.append_nil, ownAt, get?_modify_here hKeep, ownAt]
      cases n.get? ps with
      | none => rfl
      | some m => simp [bare_mapInfo]
    | cons r rest =>
      have hBelow : ps ++ r :: rest ≠ ps := by simp
      rw [ownAt, get?_modify_append hKeep, ownAt, get?_append]
      cases n.get? ps with
      | none => rfl
      | some m => simp [get?_cons]
  · have hne : qs ≠ ps := by
      rintro rfl
      exact hPrefix List.prefix_rfl
    rw [ownAt_modify_elsewhere hKeep hPrefix]
    simp [hne]

theorem ownAt_modify_mapAll {g : Info → Info} (hName : ∀ i : Info, (g i).name = i.name) (n : Node) :
    (n.modify (mapAll g) ps).ownAt qs = (n.ownAt qs).map fun e => if ps <+: qs then e.mapInfo g else e := by
  have hKeep : KeepsName (mapAll g) := keepsName_mapAll hName
  by_cases hPrefix : ps <+: qs
  · simp only [if_pos hPrefix]
    obtain ⟨rest, rfl⟩ := hPrefix
    rw [ownAt, get?_modify_append hKeep, ownAt, get?_append]
    cases n.get? ps with
    | none => rfl
    | some m =>
      rw [Option.bind_some, Option.bind_some, get?_mapAll hName, Option.map_map, Option.map_map]
      congr 1
      funext e
      cases e <;> rfl
  · rw [ownAt_modify_elsewhere hKeep hPrefix]
    simp [hPrefix]

end VirtualShell.Node
