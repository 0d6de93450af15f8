import Mathlib.Data.List.Basic
import VirtualShell.Access.Mode
import VirtualShell.Proofs.Result
import VirtualShell.Snapshot.Reader

/-!
# Modes make permission texts

Every bit of a permission text holds its own letter or a dash. A clause writes just these, and the
digits of an octal mode are read as triads of them.
-/
namespace VirtualShell.Mode
set_option autoImplicit false

/-- A bit has its own letter or a dash. -/
def isBit (bit : Char × Char) : Bool := bit.1 == bit.2 || bit.1 == '-'

def Bits (cs : List Char) : Prop := cs.length = 9 ∧ (cs.zip "rwxrwxrwx".toList).all isBit = true

theorem isPermissions_iff {text : String} : Draft.isPermissions text = true ↔ Bits text.toList := by
  simp only [Draft.isPermissions, Bits, Bool.and_eq_true, beq_iff_eq]
  rfl

theorem all_zip_set {q : Char × Char → Bool} {cs letters : List Char} {i : Nat} {c letter : Char}
    (h : (cs.zip letters).all q = true) (hi : letters[i]? = some letter) (hc : q (c, letter) = true) :
    ((cs.set i c).zip letters).all q = true := by
  induction cs generalizing letters i with
  | nil => exact h
  | cons d ds ih =>
    cases letters with
    | nil => cases hi
    | cons l ls =>
      rw [List.zip_cons_cons, List.all_cons, Bool.and_eq_true] at h
      cases i with
      | zero =>
        cases hi
        rw [List.set_cons_zero, List.zip_cons_cons, List.all_cons, Bool.and_eq_true]
        exact ⟨hc, h.2⟩
      | succ i =>
        rw [List.set_cons_succ, List.zip_cons_cons, List.all_cons, Bool.and_eq_true]
        exact ⟨h.1, ih h.2 hi⟩

theorem letter_at_place (c : Class) (a : Access) : "rwxrwxrwx".toList[place c a]? = some a.letter := by
  cases c <;> cases a <;> rfl

theorem isBit_writes {k : Clause} {c : Class} {a : Access} {letter : Char} (h : k.writes? c a = some letter) :
    isBit (letter, a.letter) = true := by
  have hLetter : letter = a.letter ∨ letter = '-' := by
    unfold Clause.writes? at h
    split at h
    · cases h
    · cases hOperator : k.operator <;> simp only [hOperator] at h <;> grind
  rcases hLetter with rfl | rfl <;> simp [isBit]

theorem bits_applyBit {k : Clause} {cs cs' : List Char} {bit : Class × Access} (hcs : Bits cs)
    (h : k.applyBit cs bit = .ok cs') : Bits cs' := by
  unfold Clause.applyBit at h
  split at h
  · cases h
    exact hcs
  · rename_i letter hWrites
    dsimp only at h
    split at h
    · cases h
      refine ⟨by rw [List.length_set, hcs.1], ?_⟩
      exact all_zip_set hcs.2 (letter_at_place bit.1 bit.2) (isBit_writes hWrites)
    · cases h

theorem all_isBit_digitLetters (value : Nat) : ((digitLetters value).zip ['r', 'w', 'x']).all isBit = true := by
  simp only [digitLetters, List.zip_cons_cons, List.zip_nil_right, List.all_cons, List.all_nil, isBit]
  grind

theorem bits_digitLetters (a b c : Nat) : Bits [digitLetters a, digitLetters b, digitLetters c].flatten := by
  have hLetters : "rwxrwxrwx".toList = ['r', 'w', 'x'] ++ (['r', 'w', 'x'] ++ ['r', 'w', 'x']) := rfl
  refine ⟨rfl, ?_⟩
  have hFirst : (digitLetters a).length = ['r', 'w', 'x'].length := rfl
  have hSecond : (digitLetters b).length = ['r', 'w', 'x'].length := rfl
  rw [hLetters, List.flatten_cons, List.flatten_cons, List.flatten_cons, List.flatten_nil, List.append_nil,
    List.zip_append hFirst, List.zip_append hSecond]
  simp only [List.all_append, all_isBit_digitLetters, Bool.and_self]

theorem exists_digitLetters {c : Char} {letters : List Char} {fault : Fault}
    (h : (if isOctalDigit c then Except.ok (digitLetters (c.toNat - 0x30)) else .error fault) = .ok letters) :
    ∃ value, letters = digitLetters value := by
  split at h
  · cases h
    exact ⟨_, rfl⟩
  · cases h

theorem length_of_isOctal {cs : List Char} (h : isOctal cs = true) : 3 ≤ cs.length := by
  unfold isOctal at h
  dsimp only at h
  split at h
  · simp only [List.length_dropLast, Bool.and_eq_true, Bool.or_eq_true, beq_iff_eq] at h
    omega
  · simp only [Bool.and_eq_true, Bool.or_eq_true, beq_iff_eq] at h
    omega

theorem bits_ofOctal {octal permissions : String} (h : ofOctal octal = .ok permissions) :
    Bits permissions.toList := by
  unfold ofOctal at h
  dsimp only at h
  split at h
  · cases h
  · rename_i hOctal
    have hLength := length_of_isOctal (by simpa using hOctal)
    obtain ⟨letters, hLetters, h⟩ := Result.exists_of_bind_ok h
    cases h
    rw [String.toList_ofList]
    obtain ⟨hThree, hTriads⟩ :=
      Result.mapM_ok (P := fun l => ∃ value, l = digitLetters value) (fun c l => exists_digitLetters) hLetters
    rw [List.length_drop] at hThree
    obtain ⟨x, y, z, rfl⟩ := List.length_eq_three.mp (hThree.trans (by omega))
    obtain ⟨a, rfl⟩ := hTriads x (by simp)
    obtain ⟨b, rfl⟩ := hTriads y (by simp)
    obtain ⟨c, rfl⟩ := hTriads z (by simp)
    exact bits_digitLetters a b c

/-- A mode makes a permission text of a permission text. -/
theorem isPermissions_apply {expression current permissions : String}
    (hCurrent : Draft.isPermissions current = true)
    (h : apply expression current = .ok permissions) : Draft.isPermissions permissions = true := by
  rw [isPermissions_iff] at hCurrent ⊢
  unfold apply at h
  dsimp only at h
  split at h
  · cases h
  · split at h
    · exact bits_ofOctal h
    · split at h
      · cases h
      · obtain ⟨cs, hcs, h⟩ := Result.exists_of_bind_ok h
        cases h
        rw [String.toList_ofList]
        refine Result.foldlM_keeps (fun text k text' hText hApply => ?_) hCurrent hcs
        exact Result.foldlM_keeps (fun _ _ _ hBits hBit => bits_applyBit hBits hBit) hText hApply

end VirtualShell.Mode
