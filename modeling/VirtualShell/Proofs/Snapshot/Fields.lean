import Mathlib.Data.List.Forall2
import VirtualShell.Proofs.Result
import VirtualShell.Snapshot.Reader

/-!
# What the readers accept

`Reads read R` says that a reader accepts exactly those values that `R` relates to something, and reads
them as that. Where a value is does not matter to what it is read as.
-/
namespace VirtualShell.Draft
set_option autoImplicit false

variable {α : Type}

def Reads (read : Place → Json → Read α) (R : α → Json → Prop) : Prop :=
  ∀ place j a, read place j = .ok a ↔ R a j

def IsText (s : String) (j : Json) : Prop := j = .string s

def IsName (s : String) (j : Json) : Prop := j = .string s ∧ s ≠ ""

def IsKind (kind : NodeKind) (j : Json) : Prop := j = .string kind.text

/-- A number, or what stands for one: a truth value or a text. -/
def IsNumber (x : Float) (j : Json) : Prop := number [] j = .ok x

def IsInteger (n : Int) (j : Json) : Prop := integer [] j = .ok n

def IsList (R : α → Json → Prop) (xs : List α) (j : Json) : Prop := ∃ js, j = .array js ∧ List.Forall₂ R xs js

def Has (fields : Json.Fields) (key : String) (R : α → Json → Prop) (a : α) : Prop :=
  ∃ j, fields.get? key = some j ∧ R a j

def HasOr (fields : Json.Fields) (key : String) (default : α) (R : α → Json → Prop) (a : α) : Prop :=
  match fields.get? key with
  | some j => R a j
  | none => a = default

def HasMaybe (fields : Json.Fields) (key : String) (R : α → Json → Prop) (o : Option α) : Prop :=
  match fields.get? key with
  | none | some .null => o = none
  | some j => ∃ a, o = some a ∧ R a j

theorem contains_eq_isSome (fields : Json.Fields) (key : String) :
    fields.contains key = (fields.get? key).isSome := by
  rw [Bool.eq_iff_iff, Json.Fields.contains, Json.Fields.get?, Option.isSome_map, List.find?_isSome, List.any_eq_true]

section

variable {R : α → Json → Prop} (hR : Relator.LeftUnique R) {fields : Json.Fields} {key : String} {a b default : α}
  {o o' : Option α}

include hR

theorem Has.unique (h : Has fields key R a) (h' : Has fields key R b) : a = b := by
  obtain ⟨j, hField, ha⟩ := h
  obtain ⟨_, hField', hb⟩ := h'
  cases hField.symm.trans hField'
  exact hR ha hb

theorem HasOr.unique (h : HasOr fields key default R a) (h' : HasOr fields key default R b) : a = b := by
  unfold HasOr at h h'
  split at h
  · rename_i j hField
    rw [hField] at h'
    exact hR h h'
  · rename_i hField
    rw [hField] at h'
    rw [h, h']

theorem HasMaybe.unique (h : HasMaybe fields key R o) (h' : HasMaybe fields key R o') : o = o' := by
  unfold HasMaybe at h h'
  split at h
  · rename_i hField
    rw [hField] at h'
    rw [h, h']
  · rename_i hField
    rw [hField] at h'
    rw [h, h']
  · rename_i j hNull hField
    obtain ⟨a, rfl, ha⟩ := h
    split at h'
    · rename_i hNone
      cases hField.symm.trans hNone
    · rename_i hNone
      exact absurd (Option.some.inj (hField.symm.trans hNone)) hNull
    · rename_i hField'
      cases hField.symm.trans hField'
      obtain ⟨b, rfl, hb⟩ := h'
      rw [hR ha hb]

end

theorem reads_text : Reads text IsText := by
  intro place j s
  cases j <;> simp [text, IsText, faultAt]

theorem reads_nonemptyText : Reads nonemptyText IsName := by
  intro place j s
  rw [nonemptyText, Result.bind_eq_ok_iff]
  constructor
  · rintro ⟨s', hText, h⟩
    split at h
    · cases h
    · rename_i hne
      cases h
      exact ⟨(reads_text place j s).mp hText, by simpa using hne⟩
  · rintro ⟨hText, hne⟩
    refine ⟨s, (reads_text place j s).mpr hText, ?_⟩
    rw [if_neg (by simpa using hne)]
    rfl

theorem reads_permissionText : Reads permissionText fun s j => IsText s j ∧ isPermissions s = true := by
  intro place j s
  rw [permissionText, Result.bind_eq_ok_iff]
  constructor
  · rintro ⟨s', hText, h⟩
    split at h
    · rename_i hForm
      cases h
      exact ⟨(reads_text place j s).mp hText, hForm⟩
    · cases h
  · rintro ⟨hText, hForm⟩
    refine ⟨s, (reads_text place j s).mpr hText, ?_⟩
    rw [if_pos hForm]
    rfl

theorem ofText?_eq_some {text : String} {kind : NodeKind} : NodeKind.ofText? text = some kind ↔ text = kind.text := by
  unfold NodeKind.ofText?
  cases kind with
  | file =>
    by_cases hFile : text = "file"
    · simp [hFile, NodeKind.text]
    · by_cases hDir : text = "dir" <;> simp [hFile, hDir, NodeKind.text]
  | dir =>
    by_cases hFile : text = "file"
    · simp [hFile, NodeKind.text]
    · by_cases hDir : text = "dir" <;> simp [hFile, hDir, NodeKind.text]

theorem reads_kindText : Reads kindText IsKind := by
  intro place j kind
  cases j with
  | string s =>
    rw [kindText, IsKind, Json.string.injEq, ← ofText?_eq_some]
    cases NodeKind.ofText? s <;> simp [faultAt]
  | _ => simp [kindText, IsKind, faultAt]

theorem reads_number : Reads number IsNumber := by
  intro place j x
  cases j with
  | string s =>
    rw [IsNumber, number, number]
    cases floatText? s <;> simp [faultAt]
  | int n =>
    rw [IsNumber, number, number]
    cases wholeNumber? n <;> simp [faultAt]
  | _ => simp [IsNumber, number, faultAt]

theorem reads_integer : Reads integer IsInteger := by
  intro place j n
  cases j with
  | string s =>
    rw [IsInteger, integer, integer]
    cases integerText? s <;> simp [faultAt]
  | float x =>
    simp only [IsInteger, integer]
    cases (Exact.ofFloat x).truncate? with
    | none => simp [faultAt]
    | some m =>
      dsimp only
      split
      · simp [faultAt]
      · split
        · simp
        · simp [faultAt]
  | _ => simp [IsInteger, integer, faultAt]

/-- A value is read as one thing only. -/
theorem Reads.leftUnique {read : Place → Json → Read α} {R : α → Json → Prop} (h : Reads read R) :
    Relator.LeftUnique R := by
  intro a b j ha hb
  exact Except.ok.inj (((h [] j a).mpr ha).symm.trans ((h [] j b).mpr hb))

section

variable {read : Place → Json → Read α} {R : α → Json → Prop} (h : Reads read R)

include h

theorem readItems_eq_ok_iff (place : Place) (i : Nat) (js : List Json) (xs : List α) :
    readItems read place i js = .ok xs ↔ List.Forall₂ R xs js := by
  induction js generalizing i xs with
  | nil =>
    rw [readItems, List.forall₂_nil_right_iff]
    constructor
    · rintro ⟨⟩
      rfl
    · rintro rfl
      rfl
  | cons j js ih =>
    rw [readItems, Result.bind_eq_ok_iff]
    constructor
    · rintro ⟨x, hx, hRest⟩
      obtain ⟨ys, hys, hEq⟩ := Result.bind_eq_ok_iff.mp hRest
      cases hEq
      exact .cons ((h _ j x).mp hx) ((ih _ ys).mp hys)
    · intro hAll
      cases hAll with
      | @cons x _ ys _ hx hys =>
        exact ⟨x, (h _ j x).mpr hx, Result.bind_eq_ok_iff.mpr ⟨ys, (ih _ ys).mpr hys, rfl⟩⟩

theorem reads_list : Reads (list read) (IsList R) := by
  intro place j xs
  cases j with
  | array js =>
    rw [list, readItems_eq_ok_iff h]
    constructor
    · exact fun hAll => ⟨js, rfl, hAll⟩
    · rintro ⟨_, ⟨⟩, hAll⟩
      exact hAll
  | _ => simp [list, IsList, faultAt]

variable {fields : Json.Fields} {place : Place} {key : String}

theorem required_eq_ok_iff {a : α} : required fields place key read = .ok a ↔ Has fields key R a := by
  rw [required, Has]
  cases fields.get? key with
  | none => simp [faultAt]
  | some j => simp [h _ j a]

theorem defaulted_eq_ok_iff {default a : α} :
    defaulted fields place key default read = .ok a ↔ HasOr fields key default R a := by
  rw [defaulted, HasOr]
  cases fields.get? key with
  | none => simp [eq_comm]
  | some j => exact h _ j a

theorem optional_eq_ok_iff {o : Option α} :
    optional fields place key read = .ok o ↔ HasMaybe fields key R o := by
  rw [optional, HasMaybe]
  cases hField : fields.get? key with
  | none => simp [eq_comm]
  | some j =>
    have hSome : some <$> read (place ++ [key]) j = .ok o ↔ ∃ a, o = some a ∧ R a j := by
      constructor
      · intro hRead
        obtain ⟨a, ha, hEq⟩ := Result.exists_of_bind_ok (f := fun a => Except.ok (some a)) hRead
        cases hEq
        exact ⟨a, rfl, (h _ j a).mp ha⟩
      · rintro ⟨a, rfl, ha⟩
        rw [(h _ j a).mpr ha]
        rfl
    cases j with
    | null => simp [eq_comm]
    | _ => exact hSome

end

end VirtualShell.Draft
