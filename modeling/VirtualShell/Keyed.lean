/-!
# Lists in the order of their keys

A list whose members have strictly ascending keys holds at most one member for each key.
`find?_insert` and `find?_erase` say what the two changes do to the members, `Roster` is a list
together with its order.
-/
namespace VirtualShell
set_option autoImplicit false

namespace Keyed

variable {α : Type} (key : α → String)

def Ordered (xs : List α) : Prop := xs.Pairwise fun x y => key x < key y

def find? (k : String) (xs : List α) : Option α := xs.find? fun x => key x == k

/-- Puts `x` in its place, instead of a member with the same key. -/
def insert (x : α) : List α → List α
  | [] => [x]
  | y :: ys =>
    if key x < key y then x :: y :: ys
    else if key x = key y then x :: ys
    else y :: insert x ys

def erase (k : String) (xs : List α) : List α := xs.filter fun x => key x != k

variable {key}

theorem mem_insert {x z : α} {xs : List α} (h : z ∈ insert key x xs) : z = x ∨ z ∈ xs := by
  induction xs with
  | nil => simpa [insert] using h
  | cons y ys ih =>
    simp only [insert] at h
    split at h
    · simpa using h
    · split at h
      · rcases List.mem_cons.mp h with rfl | h
        · exact .inl rfl
        · exact .inr (List.mem_cons_of_mem _ h)
      · rcases List.mem_cons.mp h with rfl | h
        · exact .inr List.mem_cons_self
        · exact (ih h).imp_right (List.mem_cons_of_mem _)

theorem lt_of_not_lt_of_ne {a b : String} (h : ¬a < b) (hne : a ≠ b) : b < a := by
  rcases Std.lt_trichotomy a b with h' | h' | h'
  · exact absurd h' h
  · exact absurd h' hne
  · exact h'

theorem ordered_insert {x : α} {xs : List α} (h : Ordered key xs) : Ordered key (insert key x xs) := by
  induction xs with
  | nil => simp [insert, Ordered]
  | cons y ys ih =>
    obtain ⟨hy, hys⟩ := List.pairwise_cons.mp h
    simp only [insert]
    split
    · rename_i hlt
      refine List.pairwise_cons.mpr ⟨?_, h⟩
      intro z hz
      rcases List.mem_cons.mp hz with rfl | hz
      · exact hlt
      · exact String.lt_trans hlt (hy z hz)
    · split
      · rename_i _ heq
        exact List.pairwise_cons.mpr ⟨fun z hz => heq ▸ hy z hz, hys⟩
      · rename_i hlt hne
        refine List.pairwise_cons.mpr ⟨?_, ih hys⟩
        intro z hz
        rcases mem_insert hz with rfl | hz
        · exact lt_of_not_lt_of_ne hlt hne
        · exact hy z hz

theorem ordered_erase {k : String} {xs : List α} (h : Ordered key xs) : Ordered key (erase key k xs) :=
  List.Pairwise.filter _ h

@[simp] theorem find?_nil (k : String) : find? key k [] = none := rfl

theorem find?_cons (k : String) (x : α) (xs : List α) :
    find? key k (x :: xs) = if key x = k then some x else find? key k xs := by
  by_cases h : key x = k <;> simp [find?, h]

theorem find?_insert {x : α} {xs : List α} (h : Ordered key xs) (k : String) :
    find? key k (insert key x xs) = if key x = k then some x else find? key k xs := by
  induction xs with
  | nil => simp [insert, find?_cons]
  | cons y ys ih =>
    obtain ⟨hy, hys⟩ := List.pairwise_cons.mp h
    simp only [insert]
    split
    · simp [find?_cons]
    · split
      · rename_i _ heq
        simp only [find?_cons, heq]
        split <;> rfl
      · rename_i hlt hne
        simp only [find?_cons, ih hys]
        by_cases hx : key x = k
        · have : key y ≠ k := fun h => hne (hx.trans h.symm)
          simp [hx, this]
        · simp [hx]

theorem find?_erase (k l : String) (xs : List α) :
    find? key l (erase key k xs) = if l = k then none else find? key l xs := by
  induction xs with
  | nil => simp [erase]
  | cons y ys ih =>
    simp only [erase] at ih ⊢
    by_cases hy : key y = k
    · simp only [hy, List.filter_cons, bne_self_eq_false, Bool.false_eq_true, if_false, ih, find?_cons]
      by_cases hl : l = k
      · simp [hl]
      · simp [hl, Ne.symm hl]
    · have : (key y != k) = true := by simpa using hy
      simp only [List.filter_cons, this, if_true, find?_cons, ih]
      by_cases hl : l = k
      · subst hl
        simp [hy]
      · simp [hl]

end Keyed

structure Roster (α : Type) (key : α → String) where
  members : List α
  ordered : Keyed.Ordered key members

namespace Roster

variable {α : Type} {key : α → String}

def empty : Roster α key := ⟨[], List.Pairwise.nil⟩

def find? (r : Roster α key) (k : String) : Option α := Keyed.find? key k r.members

def contains (r : Roster α key) (k : String) : Bool := (r.find? k).isSome

def insert (r : Roster α key) (x : α) : Roster α key :=
  ⟨Keyed.insert key x r.members, Keyed.ordered_insert r.ordered⟩

def erase (r : Roster α key) (k : String) : Roster α key :=
  ⟨Keyed.erase key k r.members, Keyed.ordered_erase r.ordered⟩

/-- Of members with one key the last counts. -/
def ofList (xs : List α) : Roster α key := xs.foldl insert empty

def union (r s : Roster α key) : Roster α key := s.members.foldl insert r

@[ext] theorem ext {r s : Roster α key} (h : r.members = s.members) : r = s := by
  cases r
  cases s
  cases h
  rfl

@[simp] theorem find?_insert (r : Roster α key) (x : α) (k : String) :
    (r.insert x).find? k = if key x = k then some x else r.find? k :=
  Keyed.find?_insert r.ordered k

@[simp] theorem find?_erase (r : Roster α key) (k l : String) :
    (r.erase k).find? l = if l = k then none else r.find? l :=
  Keyed.find?_erase k l r.members

end Roster

abbrev Names := Roster String id

namespace Names

/-- A name that is there already changes nothing. -/
def add (names : Names) (name : String) : Names := Roster.insert names name

def minus (names others : Names) : List String := names.members.filter fun n => !others.contains n

end Names

end VirtualShell
