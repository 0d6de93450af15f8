import VirtualShell.Access.Account

/-!
# What is in a roster

A roster is a set of keys with their members: `mem_members_iff` leads from the list to the lookup, and
`contains_` lemmas say which keys are there after a change.
-/
namespace VirtualShell
set_option autoImplicit false

namespace Keyed

variable {α : Type} {key : α → String}

theorem find?_eq_some_iff {k : String} {x : α} {xs : List α} (h : Ordered key xs) :
    find? key k xs = some x ↔ x ∈ xs ∧ key x = k := by
  induction xs with
  | nil => simp
  | cons y ys ih =>
    obtain ⟨hy, hys⟩ := List.pairwise_cons.mp h
    rw [find?_cons]
    by_cases hk : key y = k
    · rw [if_pos hk]
      constructor
      · rintro ⟨⟩
        exact ⟨List.mem_cons_self, hk⟩
      · rintro ⟨hx, rfl⟩
        rcases List.mem_cons.mp hx with rfl | hx
        · rfl
        · exact absurd (hk ▸ hy x hx) (String.lt_irrefl _)
    · rw [if_neg hk, ih hys, List.mem_cons]
      constructor
      · exact fun ⟨hx, hkx⟩ => ⟨.inr hx, hkx⟩
      · rintro ⟨rfl | hx, hkx⟩
        · exact absurd hkx hk
        · exact ⟨hx, hkx⟩

theorem insert_eq_concat {x : α} {xs : List α} (h : ∀ y ∈ xs, key y < key x) : insert key x xs = xs ++ [x] := by
  induction xs with
  | nil => rfl
  | cons y ys ih =>
    obtain ⟨hy, hys⟩ := List.forall_mem_cons.mp h
    rw [insert, if_neg (String.lt_asymm hy), if_neg (fun hEq => String.lt_irrefl _ (hEq ▸ hy)), ih hys]
    rfl

/-- Members that come in order are put one behind the other. -/
theorem foldl_insert_eq_append {xs ys : List α} (h : Ordered key (xs ++ ys)) :
    ys.foldl (fun zs y => insert key y zs) xs = xs ++ ys := by
  induction ys generalizing xs with
  | nil => rw [List.append_nil, List.foldl_nil]
  | cons y ys ih =>
    obtain ⟨-, -, hBefore⟩ := List.pairwise_append.mp h
    have hLast : insert key y xs = xs ++ [y] :=
      insert_eq_concat fun x hx => hBefore x hx y List.mem_cons_self
    rw [List.append_cons] at h
    rw [List.foldl_cons, hLast, ih h, ← List.append_cons]

theorem insert_eq_self {x : α} {xs : List α} (h : Ordered key xs) (hx : x ∈ xs) : insert key x xs = xs := by
  induction xs with
  | nil => cases hx
  | cons y ys ih =>
    obtain ⟨hy, hys⟩ := List.pairwise_cons.mp h
    rcases List.mem_cons.mp hx with rfl | hx
    · rw [insert, if_neg (String.lt_irrefl _), if_pos rfl]
    · have hLt := hy x hx
      rw [insert, if_neg (String.lt_asymm hLt), if_neg (fun hEq => String.lt_irrefl _ (hEq ▸ hLt)), ih hys hx]

theorem erase_eq_self {k : String} {xs : List α} (h : ∀ x ∈ xs, key x ≠ k) : erase key k xs = xs :=
  List.filter_eq_self.mpr fun x hx => bne_iff_ne.mpr (h x hx)

theorem erase_insert {x : α} {xs : List α} (h : ∀ y ∈ xs, key y ≠ key x) :
    erase key (key x) (insert key x xs) = xs := by
  induction xs with
  | nil => simp [insert, erase]
  | cons y ys ih =>
    obtain ⟨hy, hys⟩ := List.forall_mem_cons.mp h
    have hKeeps : erase key (key x) (y :: ys) = y :: ys := erase_eq_self h
    rw [insert, if_neg (Ne.symm hy)]
    split
    · simpa [erase] using hKeeps
    · have hLater : erase key (key x) (insert key x ys) = ys := ih hys
      simpa [erase, hy] using hLater

section

variable {change : α → α} (hKey : ∀ x, key (change x) = key x)

include hKey

theorem insert_map (x : α) (xs : List α) : insert key (change x) (xs.map change) = (insert key x xs).map change := by
  induction xs with
  | nil => rfl
  | cons y ys ih =>
    rw [List.map_cons, insert, insert, hKey, hKey]
    split
    · rfl
    · split
      · rfl
      · rw [List.map_cons, ih]

/-- The member whose place is taken does not matter. -/
theorem insert_map_of_ne {x : α} {xs : List α} (hOrder : Ordered key xs) (h : ∀ y, key y ≠ key x → change y = y) :
    insert key x (xs.map change) = insert key x xs := by
  have hAbove : ∀ ys : List α, (∀ y ∈ ys, key x < key y) → ys.map change = ys := by
    intro ys hys
    have hSame : ys.map change = ys.map id :=
      List.map_congr_left fun y hy => h y fun hEq => String.lt_irrefl _ (hEq ▸ hys y hy)
    rw [hSame, List.map_id]
  induction xs with
  | nil => rfl
  | cons y ys ih =>
    obtain ⟨hy, hys⟩ := List.pairwise_cons.mp hOrder
    rw [List.map_cons, insert, insert, hKey]
    split
    · rename_i hLess
      have hList := hAbove (y :: ys) fun z hz => by
        rcases List.mem_cons.mp hz with rfl | hz
        · exact hLess
        · exact String.lt_trans hLess (hy z hz)
      rw [← List.map_cons, hList]
    · split
      · rename_i hEq
        rw [hAbove ys fun z hz => hEq ▸ hy z hz]
      · rename_i hne
        rw [h y (Ne.symm hne), ih hys]

end

end Keyed

namespace Roster

variable {α : Type} {key : α → String}

theorem find?_eq_some_iff {r : Roster α key} {k : String} {x : α} :
    r.find? k = some x ↔ x ∈ r.members ∧ key x = k :=
  Keyed.find?_eq_some_iff r.ordered

theorem contains_iff {r : Roster α key} {k : String} : r.contains k = true ↔ ∃ x ∈ r.members, key x = k := by
  simp only [contains, Option.isSome_iff_exists, find?_eq_some_iff]

@[simp] theorem contains_empty (k : String) : (empty : Roster α key).contains k = false := rfl

@[simp] theorem contains_insert (r : Roster α key) (x : α) (k : String) :
    (r.insert x).contains k = (key x == k || r.contains k) := by
  by_cases h : key x = k <;> simp [contains, h]

@[simp] theorem contains_erase (r : Roster α key) (k l : String) :
    (r.erase k).contains l = (l != k && r.contains l) := by
  by_cases h : l = k <;> simp [contains, h]

theorem contains_foldl_insert (r : Roster α key) (xs : List α) (k : String) :
    (xs.foldl insert r).contains k = (r.contains k || xs.any (key · == k)) := by
  induction xs generalizing r with
  | nil => simp
  | cons x xs ih =>
    rw [List.foldl_cons, ih, contains_insert, List.any_cons, Bool.or_comm (key x == k), Bool.or_assoc]

@[simp] theorem contains_ofList (xs : List α) (k : String) : (ofList xs : Roster α key).contains k =
    xs.any (key · == k) := by
  rw [ofList, contains_foldl_insert, contains_empty, Bool.false_or]

@[simp] theorem contains_union (r s : Roster α key) (k : String) :
    (r.union s).contains k = (r.contains k || s.contains k) := by
  rw [union, contains_foldl_insert, Bool.eq_iff_iff]
  simp only [Bool.or_eq_true, List.any_eq_true, beq_iff_eq, contains_iff]

theorem insert_eq_self {r : Roster α key} {x : α} (h : x ∈ r.members) : r.insert x = r :=
  ext (Keyed.insert_eq_self r.ordered h)

theorem erase_eq_self {r : Roster α key} {k : String} (h : r.contains k = false) : r.erase k = r := by
  refine ext (Keyed.erase_eq_self fun x hx hKey => ?_)
  rw [contains_iff.mpr ⟨x, hx, hKey⟩] at h
  cases h

theorem erase_insert {r : Roster α key} {x : α} (h : r.contains (key x) = false) : (r.insert x).erase (key x) = r := by
  refine ext (Keyed.erase_insert fun y hy hKey => ?_)
  rw [contains_iff.mpr ⟨y, hy, hKey⟩] at h
  cases h

theorem members_foldl_insert (r : Roster α key) (xs : List α) :
    (xs.foldl insert r).members = xs.foldl (fun ys x => Keyed.insert key x ys) r.members := by
  induction xs generalizing r with
  | nil => rfl
  | cons x xs ih => exact ih (r.insert x)

theorem ofList_members (r : Roster α key) : ofList r.members = r := by
  apply ext
  have hOrdered : Keyed.Ordered key ([] ++ r.members) := r.ordered
  rw [ofList, members_foldl_insert]
  exact Keyed.foldl_insert_eq_append hOrdered

theorem of_mem_insert {r : Roster α key} {x y : α} (h : y ∈ (r.insert x).members) : y = x ∨ y ∈ r.members :=
  Keyed.mem_insert h

theorem of_mem_foldl_insert {r : Roster α key} {xs : List α} {y : α} (h : y ∈ (xs.foldl insert r).members) :
    y ∈ r.members ∨ y ∈ xs := by
  induction xs generalizing r with
  | nil => exact .inl h
  | cons x xs ih =>
    rcases ih h with hBefore | hLater
    · rcases of_mem_insert hBefore with rfl | hOld
      · exact .inr List.mem_cons_self
      · exact .inl hOld
    · exact .inr (List.mem_cons_of_mem x hLater)

theorem of_mem_ofList {xs : List α} {y : α} (h : y ∈ (ofList xs : Roster α key).members) : y ∈ xs := by
  rcases of_mem_foldl_insert h with hEmpty | hMem
  · cases hEmpty
  · exact hMem

theorem find?_foldl_insert {xs : List α} (h : (xs.map key).Nodup) (r : Roster α key) (k : String) :
    (xs.foldl insert r).find? k = (xs.find? (key · == k)).or (r.find? k) := by
  induction xs generalizing r with
  | nil => rfl
  | cons x xs ih =>
    rw [List.map_cons, List.nodup_cons] at h
    rw [List.foldl_cons, ih h.2, find?_insert, List.find?_cons]
    by_cases hKey : key x = k
    · have hLater : xs.find? (key · == k) = none := by
        rw [List.find?_eq_none]
        intro y hy hSame
        exact h.1 (List.mem_map.mpr ⟨y, hy, (beq_iff_eq.mp hSame).trans hKey.symm⟩)
      simp [hLater, hKey]
    · simp [hKey, beq_false_of_ne hKey]

/-- If no two members have one key, each is found. -/
theorem find?_ofList {xs : List α} (h : (xs.map key).Nodup) (k : String) :
    (ofList xs : Roster α key).find? k = xs.find? (key · == k) := by
  rw [ofList, find?_foldl_insert h]
  exact Option.or_none

theorem of_mem_erase {r : Roster α key} {k : String} {y : α} (h : y ∈ (r.erase k).members) :
    y ∈ r.members :=
  (List.mem_filter.mp h).1

end Roster

@[simp] theorem Names.contains_add (names : Names) (g h : String) :
    (names.add g).contains h = (g == h || names.contains h) :=
  Roster.contains_insert names g h

theorem Names.contains_iff_mem {names : Names} {g : String} : names.contains g = true ↔ g ∈ names.members := by
  simp [Roster.contains_iff]

theorem Names.add_eq_self {names : Names} {g : String} (h : names.contains g = true) : names.add g = names :=
  Roster.insert_eq_self (contains_iff_mem.mp h)

theorem Names.erase_add (names : Names) (g : String) : (names.add g).erase g = names.erase g := by
  cases h : names.contains g with
  | true => rw [add_eq_self h]
  | false => rw [Roster.erase_eq_self h]; exact Roster.erase_insert h

/-- The union with names that are there already changes nothing. -/
theorem Names.union_eq_self {names others : Names} (h : ∀ g, others.contains g = true → names.contains g = true) :
    names.union others = names := by
  have hMem : ∀ g ∈ others.members, g ∈ names.members :=
    fun g hg => contains_iff_mem.mp (h g (contains_iff_mem.mpr hg))
  unfold Roster.union
  generalize others.members = gs at hMem
  induction gs with
  | nil => rfl
  | cons g gs ih =>
    obtain ⟨hg, hgs⟩ := List.forall_mem_cons.mp hMem
    rw [List.foldl_cons, Roster.insert_eq_self hg, ih hgs]

theorem Names.minus_eq_nil_iff {names others : Names} :
    names.minus others = [] ↔ ∀ g, names.contains g = true → others.contains g = true := by
  simp only [Names.minus, List.filter_eq_nil_iff, Names.contains_iff_mem, Bool.not_eq_true',
    Bool.not_eq_false]

@[simp] theorem Account.contains_groups (a : Account) (g : String) :
    a.groups.contains g = (a.primaryGroup == g || a.supplemental.contains g) :=
  Names.contains_add a.supplemental a.primaryGroup g

end VirtualShell
