import VirtualShell.Proofs.Mode

/-!
# What a clause does to each bit

A permission text is told by which of its nine bits are set. A clause settles every bit by itself, so that the order of
its letters and their repetition do not matter, and several clauses settle a bit one after the other: together they
leave it as it is, or they make the same of it whatever it was.
-/
namespace VirtualShell.Mode
set_option autoImplicit false

def isSet (permissions : String) (c : Class) (a : Access) : Bool := permissions.toList[place c a]? == some a.letter

namespace Clause

/-- What a clause makes of a bit: it touches those of the classes that it names, or of all classes if it names none or
has an `a`, and it touches them for the letters that it names, or for all of them if it assigns. -/
def settle (k : Clause) (c : Class) (a : Access) (set : Bool) : Bool :=
  let name := match c with
    | .user => 'u'
    | .group => 'g'
    | .other => 'o'
  if k.who = [] ∨ 'a' ∈ k.who ∨ name ∈ k.who then
    match k.operator with
    | .add => set || k.letters.contains a.letter
    | .remove => set && !k.letters.contains a.letter
    | .assign => k.letters.contains a.letter
  else set

end Clause

def settleAll (ks : List Clause) (c : Class) (a : Access) (set : Bool) : Bool :=
  ks.foldl (fun set k => k.settle c a set) set

section

variable {cs ds : List Char} {c d : Class} {a b : Access} {k : Clause}

theorem place_lt (c : Class) (a : Access) : place c a < 9 := by
  cases c <;> cases a <;> decide

theorem place_inj (h : place c a = place d b) : (c, a) = (d, b) := by
  revert h
  cases c <;> cases a <;> cases d <;> cases b <;> decide

theorem exists_place {i : Nat} (h : i < 9) : ∃ c a, place c a = i := by
  have hAll : ∀ j : Fin 9, ∃ bit ∈ bits, place bit.1 bit.2 = j := by decide
  obtain ⟨⟨c, a⟩, -, hPlace⟩ := hAll ⟨i, h⟩
  exact ⟨c, a, hPlace⟩

theorem mem_bits (c : Class) (a : Access) : (c, a) ∈ bits := by
  cases c <;> cases a <;> decide

theorem letter_ne_dash (a : Access) : a.letter ≠ '-' := by
  cases a <;> decide

/-- A bit that does not have its letter has a dash. -/
theorem Bits.getElem?_place (h : Bits cs) (c : Class) (a : Access) :
    cs[place c a]? = some (if cs[place c a]? = some a.letter then a.letter else '-') := by
  obtain ⟨hLength, hBits⟩ := h
  have hInside : place c a < cs.length := hLength ▸ place_lt c a
  have hZip : (cs.zip "rwxrwxrwx".toList)[place c a]? = some (cs[place c a], a.letter) := by
    rw [List.getElem?_zip_eq_some]
    exact ⟨List.getElem?_eq_getElem hInside, letter_at_place c a⟩
  have hBit := List.all_eq_true.mp hBits _ (List.mem_of_getElem? hZip)
  simp only [isBit, Bool.or_eq_true, beq_iff_eq] at hBit
  rw [List.getElem?_eq_getElem hInside]
  rcases hBit with hLetter | hDash
  · rw [hLetter, if_pos rfl]
  · rw [hDash, if_neg fun hLetter => letter_ne_dash a (Option.some.inj hLetter).symm]

/-- Permission texts with the same bits are the same. -/
theorem Bits.ext (hcs : Bits cs) (hds : Bits ds)
    (h : ∀ c a, (cs[place c a]? = some a.letter ↔ ds[place c a]? = some a.letter)) : cs = ds := by
  apply List.ext_getElem?
  intro i
  by_cases hi : i < 9
  · obtain ⟨c, a, rfl⟩ := exists_place hi
    rw [hcs.getElem?_place c a, hds.getElem?_place c a]
    simp only [h c a]
  · rw [List.getElem?_eq_none (by rw [hcs.1]; omega), List.getElem?_eq_none (by rw [hds.1]; omega)]

namespace Clause

theorem addresses_iff (k : Clause) (c : Class) :
    k.addresses c = true ↔ k.who = [] ∨ 'a' ∈ k.who ∨ c.letter ∈ k.who := by
  rw [addresses, Bool.or_eq_true, Bool.or_eq_true, List.isEmpty_iff, List.contains_iff_mem,
    List.contains_iff_mem, or_assoc]

theorem settle_eq (k : Clause) (c : Class) (a : Access) (set : Bool) :
    k.settle c a set = ((k.writes? c a).map (· == a.letter)).getD set := by
  have hDash : ('-' == a.letter) = false := beq_false_of_ne (letter_ne_dash a).symm
  have hName : (match c with | .user => 'u' | .group => 'g' | .other => 'o') = c.letter := by
    cases c <;> rfl
  unfold settle writes?
  simp only [hName, ← addresses_iff]
  cases hAddresses : k.addresses c with
  | false => rfl
  | true =>
    cases k.operator <;> cases hNamed : k.letters.contains a.letter <;> simp [hDash]

/-- A clause leaves a bit as it is, or makes the same of it in any case. -/
theorem settle_cases (k : Clause) (c : Class) (a : Access) :
    (∀ set, k.settle c a set = set) ∨ ∃ made, ∀ set, k.settle c a set = made := by
  simp only [settle_eq]
  cases k.writes? c a with
  | none => exact .inl fun _ => rfl
  | some letter => exact .inr ⟨letter == a.letter, fun _ => rfl⟩

theorem applyBit_eq (hcs : Bits cs) (k : Clause) (bit : Class × Access) :
    k.applyBit cs bit = .ok (((k.writes? bit.1 bit.2).map (cs.set (place bit.1 bit.2))).getD cs) := by
  unfold applyBit
  cases k.writes? bit.1 bit.2 with
  | none => rfl
  | some letter => exact if_pos (hcs.1 ▸ place_lt bit.1 bit.2)

/-- The bits of a list are settled, and no others. -/
theorem foldlM_applyBit {bs : List (Class × Access)} (hcs : Bits cs) (hOnce : bs.Nodup) (k : Clause) :
    ∃ ds, bs.foldlM k.applyBit cs = .ok ds ∧ Bits ds ∧ ∀ c a, (ds[place c a]? == some a.letter) =
      if (c, a) ∈ bs then k.settle c a (cs[place c a]? == some a.letter) else cs[place c a]? == some a.letter := by
  induction bs generalizing cs with
  | nil => exact ⟨cs, rfl, hcs, fun c a => by simp⟩
  | cons bit bs ih =>
    obtain ⟨hFirst, hOnce⟩ := List.nodup_cons.mp hOnce
    have hStep := applyBit_eq hcs k bit
    obtain ⟨ds, hds, hBits, hSet⟩ := ih (bits_applyBit hcs hStep) hOnce
    refine ⟨ds, ?_, hBits, fun c a => ?_⟩
    · rw [List.foldlM_cons, hStep]
      exact hds
    · rw [hSet]
      by_cases hHere : (c, a) = bit
      · subst hHere
        have hInside : place c a < cs.length := hcs.1 ▸ place_lt c a
        rw [if_neg hFirst, if_pos List.mem_cons_self, settle_eq]
        cases k.writes? c a with
        | none => rfl
        | some letter => simp [hInside]
      · have hElsewhere : place bit.1 bit.2 ≠ place c a := fun hPlace => hHere (place_inj hPlace).symm
        have hSame : (((k.writes? bit.1 bit.2).map (cs.set (place bit.1 bit.2))).getD cs)[place c a]? =
            cs[place c a]? := by
          cases k.writes? bit.1 bit.2 with
          | none => rfl
          | some letter => exact List.getElem?_set_ne hElsewhere
        simp only [hSame, List.mem_cons, hHere, false_or]

end Clause

/-- Clauses turn a permission text into the one in which each bit is settled by them. -/
theorem foldlM_apply (hcs : Bits cs) (ks : List Clause) :
    ∃ ds, ks.foldlM (fun text k => k.apply text) cs = .ok ds ∧ Bits ds ∧ ∀ c a,
      (ds[place c a]? == some a.letter) = settleAll ks c a (cs[place c a]? == some a.letter) := by
  induction ks generalizing cs with
  | nil => exact ⟨cs, rfl, hcs, fun _ _ => rfl⟩
  | cons k ks ih =>
    have hOnce : bits.Nodup := by decide
    obtain ⟨ms, hms, hMiddle, hFirst⟩ := Clause.foldlM_applyBit hcs hOnce k
    obtain ⟨ds, hds, hBits, hRest⟩ := ih hMiddle
    refine ⟨ds, ?_, hBits, fun c a => ?_⟩
    · rw [List.foldlM_cons, Clause.apply, hms]
      exact hds
    · rw [hRest, hFirst, if_pos (mem_bits c a)]
      rfl

theorem settleAll_cases (ks : List Clause) (c : Class) (a : Access) :
    (∀ set, settleAll ks c a set = set) ∨ ∃ made, ∀ set, settleAll ks c a set = made := by
  induction ks with
  | nil => exact .inl fun _ => rfl
  | cons k ks ih =>
    rcases ih with hKeep | ⟨made, hMade⟩
    · rcases k.settle_cases c a with hFirst | ⟨made, hFirst⟩
      · exact .inl fun set => (hKeep _).trans (hFirst set)
      · exact .inr ⟨made, fun set => (hKeep _).trans (hFirst set)⟩
    · exact .inr ⟨made, fun set => hMade _⟩

theorem settleAll_settleAll (ks : List Clause) (c : Class) (a : Access) (set : Bool) :
    settleAll ks c a (settleAll ks c a set) = settleAll ks c a set := by
  rcases settleAll_cases ks c a with hKeep | ⟨made, hMade⟩
  · exact hKeep _
  · rw [hMade, hMade]

end

end VirtualShell.Mode
