import Mathlib.Data.List.Forall2
import VirtualShell.Proofs.Mode.Clauses

/-!
# Modes as they are written

A mode is written as three octal digits, which make the same permission text of every one, or as clauses with commas
between them, each of which is read as it is spelled. Whatever is written in no such way is refused, so that
the permission text has no say in what is accepted. A mode that was applied changes nothing when it is applied again.
-/
namespace VirtualShell.Mode
set_option autoImplicit false

def Operator.sign : Operator → Char
  | add => '+'
  | remove => '-'
  | assign => '='

/-- How a clause is written: classes, an operator and letters. A newline may follow. -/
structure Clause.Spelled (k : Clause) (cs : List Char) : Prop where
  text : ∃ ending, cs = k.who ++ k.operator.sign :: (k.letters ++ ending) ∧ (ending = [] ∨ ending = ['\n'])
  who : ∀ c ∈ k.who, c ∈ ['u', 'g', 'o', 'a']
  letters : ∀ c ∈ k.letters, c ∈ ['r', 'w', 'x']
  assigns : k.letters = [] → k.operator = .assign

/-- Between blanks the expression has three octal digits, perhaps after a zero. -/
structure IsOctal (expression digits : String) : Prop where
  text : Text.trim expression.toList = digits.toList ∨ Text.trim expression.toList = '0' :: digits.toList
  length : digits.toList.length = 3
  octal : ∀ c ∈ digits.toList, isOctalDigit c = true

/-- Between blanks the expression has clauses, with commas between them. -/
structure IsSymbolic (expression : String) (ks : List Clause) : Prop where
  nonempty : ks ≠ []
  text : ∃ texts, Text.trim expression.toList = [','].intercalate texts ∧ List.Forall₂ Clause.Spelled ks texts

section

variable {cs : List Char} {c : Char} {k : Clause} {ks : List Clause}

theorem operator?_eq_some_iff {o : Operator} : Clause.operator? c = some o ↔ c = o.sign := by
  constructor
  · intro h
    unfold Clause.operator? at h
    split at h
    · cases h
      exact beq_iff_eq.mp ‹_›
    · split at h
      · cases h
        exact beq_iff_eq.mp ‹_›
      · split at h
        · cases h
          exact beq_iff_eq.mp ‹_›
        · cases h
  · rintro rfl
    cases o <;> decide

/-- A run of characters ends where one stands that does not belong to it. -/
theorem takeWhile_dropWhile_of_run (p : Char → Bool) {run : List Char} (rest : List Char) (hRun : ∀ c ∈ run, p c = true)
    (hRest : ∀ c, rest.head? = some c → p c = false) :
    (run ++ rest).takeWhile p = run ∧ (run ++ rest).dropWhile p = rest := by
  rw [List.takeWhile_append_of_pos hRun, List.dropWhile_append_of_pos hRun]
  cases rest with
  | nil => simp
  | cons c rest =>
    have hStop := hRest c rfl
    rw [List.takeWhile_cons_of_neg (by simp [hStop]), List.dropWhile_cons_of_neg (by simp [hStop]), List.append_nil]
    exact ⟨rfl, rfl⟩

theorem spelled_of_read? (h : Clause.read? cs = some k) : k.Spelled cs := by
  have hWho : ∀ c ∈ cs.takeWhile (fun c => ['u', 'g', 'o', 'a'].contains c), c ∈ ['u', 'g', 'o', 'a'] := by
    intro c hc
    simpa using List.all_eq_true.mp List.all_takeWhile c hc
  have hSplit := List.takeWhile_append_dropWhile (p := fun c => ['u', 'g', 'o', 'a'].contains c) (l := cs)
  unfold Clause.read? at h
  dsimp only at h
  generalize cs.takeWhile (fun c => ['u', 'g', 'o', 'a'].contains c) = who at h hWho hSplit
  split at h
  · cases h
  · rename_i o tail hTail
    rw [hTail] at hSplit
    have hLetters : ∀ c ∈ tail.takeWhile (fun c => ['r', 'w', 'x'].contains c), c ∈ ['r', 'w', 'x'] := by
      intro c hc
      simpa using List.all_eq_true.mp List.all_takeWhile c hc
    have hRest := List.takeWhile_append_dropWhile (p := fun c => ['r', 'w', 'x'].contains c) (l := tail)
    obtain ⟨operator, hOperator, h⟩ := Option.bind_eq_some_iff.mp h
    rw [operator?_eq_some_iff.mp hOperator] at hSplit
    generalize tail.takeWhile (fun c => ['r', 'w', 'x'].contains c) = letters at h hLetters hRest
    generalize tail.dropWhile (fun c => ['r', 'w', 'x'].contains c) = ending at h hRest
    split at h
    · cases h
    · rename_i hEnding
      split at h
      · cases h
      · rename_i hEmpty
        cases h
        refine ⟨⟨ending, ?_, ?_⟩, hWho, hLetters, ?_⟩
        · rw [hRest, hSplit]
        · by_cases hNil : ending = []
          · exact .inl hNil
          · exact .inr (by simpa [hNil] using hEnding)
        · rintro rfl
          simpa using hEmpty

theorem read?_of_spelled (h : k.Spelled cs) : Clause.read? cs = some k := by
  obtain ⟨⟨ending, rfl, hEnding⟩, hWho, hLetters, hAssigns⟩ := h
  have hSign : (['u', 'g', 'o', 'a'].contains k.operator.sign) = false := by
    cases k.operator <;> decide
  have hWhoRun : ∀ c ∈ k.who, ['u', 'g', 'o', 'a'].contains c = true := fun c hc => by simpa using hWho c hc
  have hLettersRun : ∀ c ∈ k.letters, ['r', 'w', 'x'].contains c = true := fun c hc => by simpa using hLetters c hc
  have hFirst := takeWhile_dropWhile_of_run (fun c => ['u', 'g', 'o', 'a'].contains c)
    (k.operator.sign :: (k.letters ++ ending)) hWhoRun (by
      rintro c ⟨⟩
      exact hSign)
  have hSecond := takeWhile_dropWhile_of_run (fun c => ['r', 'w', 'x'].contains c) ending hLettersRun (by
      rintro c hc
      rcases hEnding with rfl | rfl
      · cases hc
      · cases hc
        rfl)
  have hOk : (ending != [] && ending != ['\n']) = false := by
    rcases hEnding with rfl | rfl <;> rfl
  have hFull : (k.letters.isEmpty && k.operator != .assign) = false := by
    cases hEmpty : k.letters with
    | nil => simp [hAssigns hEmpty]
    | cons letter letters => rfl
  unfold Clause.read?
  simp only [hFirst.1, hFirst.2, operator?_eq_some_iff.mpr rfl, hSecond.1, hSecond.2, hOk, hFull, Option.bind_eq_bind,
    Option.bind_some, Bool.false_eq_true, if_false]

theorem read?_eq_some_iff : Clause.read? cs = some k ↔ k.Spelled cs := ⟨spelled_of_read?, read?_of_spelled⟩

theorem Clause.Spelled.not_mem_comma (h : k.Spelled cs) : ',' ∉ cs := by
  obtain ⟨⟨ending, rfl, hEnding⟩, hWho, hLetters, -⟩ := h
  have hSign : ',' ≠ k.operator.sign := by
    cases k.operator <;> decide
  have hEnd : ',' ∉ ending := by
    rcases hEnding with rfl | rfl <;> decide
  simp only [List.mem_append, List.mem_cons, not_or]
  exact ⟨fun hc => absurd (hWho _ hc) (by decide), hSign, fun hc => absurd (hLetters _ hc) (by decide), hEnd⟩

theorem not_mem_comma_of_spelled {texts : List (List Char)} (h : List.Forall₂ Clause.Spelled ks texts) :
    ∀ text ∈ texts, ',' ∉ text := by
  induction h with
  | nil => simp
  | cons hFirst _ ih => exact List.forall_mem_cons.mpr ⟨hFirst.not_mem_comma, ih⟩

theorem mapM_eq_some_iff {α β : Type} {f : α → Option β} {xs : List α} {ys : List β} :
    xs.mapM f = some ys ↔ List.Forall₂ (fun y x => f x = some y) ys xs := by
  induction xs generalizing ys with
  | nil =>
    rw [List.mapM_nil, List.forall₂_nil_right_iff]
    exact ⟨fun h => (Option.some.inj h).symm, fun h => h ▸ rfl⟩
  | cons x xs ih =>
    rw [List.mapM_cons]
    constructor
    · intro h
      obtain ⟨y, hy, h⟩ := Option.bind_eq_some_iff.mp h
      obtain ⟨zs, hzs, h⟩ := Option.bind_eq_some_iff.mp h
      cases h
      exact .cons hy (ih.mp hzs)
    · intro h
      cases h with
      | cons hy hys =>
        rw [hy, ih.mpr hys]
        rfl

theorem clauses?_eq_some_iff : clauses? cs = some ks ↔
    ks ≠ [] ∧ ∃ texts, cs = [','].intercalate texts ∧ List.Forall₂ Clause.Spelled ks texts := by
  simp only [clauses?, mapM_eq_some_iff, read?_eq_some_iff]
  constructor
  · intro h
    refine ⟨?_, cs.splitOn ',', (List.intercalate_splitOn ',').symm, h⟩
    rintro rfl
    exact List.splitOn_ne_nil ',' cs (List.forall₂_nil_left_iff.mp h)
  · rintro ⟨hne, texts, rfl, hSpelled⟩
    rw [List.splitOn_intercalate ',' (not_mem_comma_of_spelled hSpelled)]
    · exact hSpelled
    · rintro rfl
      exact hne (List.forall₂_nil_right_iff.mp hSpelled)

/-- The operator is no digit of any script. -/
theorem not_all_digits_of_spelled {texts : List (List Char)} (hne : ks ≠ [])
    (h : List.Forall₂ Clause.Spelled ks texts) : ([','].intercalate texts).all Text.isAnyDigit = false := by
  cases h with
  | nil => exact absurd rfl hne
  | @cons k _ _ rest hFirst _ =>
    obtain ⟨⟨ending, rfl, -⟩, -⟩ := hFirst
    have hSign : Text.isAnyDigit k.operator.sign = false := by
      cases k.operator <;> decide
    cases rest <;> simp [List.intercalate, hSign]

theorem isAnyDigit_of_isOctalDigit (h : isOctalDigit c = true) : Text.isAnyDigit c = true := by
  simp only [isOctalDigit, Bool.and_eq_true, decide_eq_true_eq, Char.le_def, UInt32.le_iff_toNat_le] at h
  have hLow : 48 ≤ c.toNat := h.1
  have hHigh : c.toNat ≤ 55 := h.2
  have hDigit : c.isDigit = true := by
    simp only [Char.isDigit, Bool.and_eq_true, decide_eq_true_eq, ge_iff_le, UInt32.le_iff_toNat_le]
    exact ⟨hLow, Nat.le_trans hHigh (by decide)⟩
  have hSmall : c.toNat < 128 := by omega
  simp [Text.isAnyDigit, Text.isDecimalDigit, Text.digitValue?, hSmall, hDigit]

theorem exists_value_of_isOctalDigit (h : isOctalDigit c = true) : ∃ n < 8, c = Char.ofNat (0x30 + n) := by
  simp only [isOctalDigit, Bool.and_eq_true, decide_eq_true_eq, Char.le_def, UInt32.le_iff_toNat_le] at h
  have hLow : 48 ≤ c.toNat := h.1
  have hHigh : c.toNat ≤ 55 := h.2
  refine ⟨c.toNat - 48, by omega, ?_⟩
  rw [Nat.add_sub_cancel' hLow, Char.ofNat_toNat]

theorem isOctal_iff (hDigits : cs.all Text.isAnyDigit = true) : isOctal cs = true ↔
    ∃ ds, (cs = ds ∨ cs = '0' :: ds) ∧ ds.length = 3 ∧ ∀ c ∈ ds, isOctalDigit c = true := by
  have hNewline : (cs.getLast? == some '\n') = false := by
    rw [beq_eq_false_iff_ne]
    intro hLast
    have hDigit := List.all_eq_true.mp hDigits _ (List.mem_of_getLast? hLast)
    revert hDigit
    decide
  simp only [isOctal, hNewline, Bool.false_eq_true, if_false, Bool.and_eq_true, Bool.or_eq_true, beq_iff_eq,
    List.all_eq_true]
  constructor
  · rintro ⟨hOctal, hLength | ⟨hLength, hZero⟩⟩
    · exact ⟨cs, .inl rfl, hLength, hOctal⟩
    · cases cs with
      | nil => cases hLength
      | cons c ds =>
        cases hZero
        exact ⟨ds, .inr rfl, by simpa using hLength, fun c hc => hOctal c (List.mem_cons_of_mem _ hc)⟩
  · rintro ⟨ds, rfl | rfl, hLength, hOctal⟩
    · exact ⟨hOctal, .inl hLength⟩
    · refine ⟨List.forall_mem_cons.mpr ⟨by decide, hOctal⟩, .inr ⟨by simp [hLength], rfl⟩⟩

/-- A digit is told by the letters of its triad. -/
theorem octalDigit_of_letters {text : List Char} {d : Class} (h : isOctalDigit c = true)
    (hText : ∀ a : Access, text[place d a]? = (digitLetters (c.toNat - 0x30))[a.place]?) :
    octalDigit text d = .ok c := by
  obtain ⟨n, hn, rfl⟩ := exists_value_of_isOctalDigit h
  have hValue : n = 0 ∨ n = 1 ∨ n = 2 ∨ n = 3 ∨ n = 4 ∨ n = 5 ∨ n = 6 ∨ n = 7 := by omega
  unfold octalDigit
  simp only [hText]
  rcases hValue with rfl | rfl | rfl | rfl | rfl | rfl | rfl | rfl <;> rfl

variable {expression digits current permissions : String}

/-- Octal digits make a permission text of any text, from which they can be read off. -/
theorem IsOctal.apply (h : IsOctal expression digits) :
    ∃ permissions, toOctal permissions = .ok digits ∧ ∀ current, Mode.apply expression current = .ok permissions := by
  obtain ⟨hText, hLength, hOctal⟩ := h
  have hDigits : (Text.trim expression.toList).all Text.isAnyDigit = true := by
    rw [List.all_eq_true]
    intro c hc
    rcases hText with hText | hText
    · rw [hText] at hc
      exact isAnyDigit_of_isOctalDigit (hOctal c hc)
    · rw [hText] at hc
      rcases List.mem_cons.mp hc with rfl | hc
      · decide
      · exact isAnyDigit_of_isOctalDigit (hOctal c hc)
  have hIsOctal := (isOctal_iff hDigits).mpr ⟨_, hText, hLength, hOctal⟩
  have hDrop : (Text.trim expression.toList).drop ((Text.trim expression.toList).length - 3) = digits.toList := by
    rcases hText with hText | hText <;> simp [hText, hLength]
  have hNonempty : (Text.trim expression.toList).isEmpty = false := by
    rcases hText with hText | hText
    · rw [hText, List.isEmpty_eq_false_iff]
      rintro hNil
      rw [hNil] at hLength
      cases hLength
    · rw [hText]
      rfl
  obtain ⟨x, y, z, hThree⟩ := List.length_eq_three.mp hLength
  rw [hThree] at hOctal hDrop
  obtain ⟨hx, hOctal⟩ := List.forall_mem_cons.mp hOctal
  obtain ⟨hy, hOctal⟩ := List.forall_mem_cons.mp hOctal
  obtain ⟨hz, -⟩ := List.forall_mem_cons.mp hOctal
  refine ⟨String.ofList [digitLetters (x.toNat - 0x30), digitLetters (y.toNat - 0x30),
    digitLetters (z.toNat - 0x30)].flatten, ?_, fun current => ?_⟩
  · have hClass : Class.all.mapM (octalDigit [digitLetters (x.toNat - 0x30), digitLetters (y.toNat - 0x30),
        digitLetters (z.toNat - 0x30)].flatten) = .ok [x, y, z] := by
      rw [Class.all, List.mapM_cons, octalDigit_of_letters hx (fun a => by cases a <;> rfl), List.mapM_cons,
        octalDigit_of_letters hy (fun a => by cases a <;> rfl), List.mapM_cons,
        octalDigit_of_letters hz (fun a => by cases a <;> rfl)]
      rfl
    rw [toOctal, String.toList_ofList, hClass, Result.ok_bind, ← hThree, String.ofList_toList]
    rfl
  · rw [Mode.apply]
    simp only [hNonempty, hDigits, if_true, Bool.false_eq_true, if_false, ofOctal, String.toList_ofList, hIsOctal,
      Bool.not_true, hDrop]
    rw [List.mapM_cons, if_pos hx, List.mapM_cons, if_pos hy, List.mapM_cons, if_pos hz]
    rfl

/-- Clauses turn a permission text into the one in which each bit is settled by them. -/
theorem IsSymbolic.apply (h : IsSymbolic expression ks) (hCurrent : Draft.isPermissions current = true) :
    ∃ permissions, Mode.apply expression current = .ok permissions ∧ Draft.isPermissions permissions = true ∧
      ∀ c a, isSet permissions c a = settleAll ks c a (isSet current c a) := by
  have hClauses := clauses?_eq_some_iff.mpr ⟨h.nonempty, h.text⟩
  have hNonempty : (Text.trim expression.toList).isEmpty = false := by
    rw [List.isEmpty_eq_false_iff]
    intro hNil
    rw [hNil] at hClauses
    cases hClauses
  obtain ⟨texts, hText, hSpelled⟩ := h.text
  have hDigits : (Text.trim expression.toList).all Text.isAnyDigit = false := by
    rw [hText]
    exact not_all_digits_of_spelled h.nonempty hSpelled
  obtain ⟨ds, hds, hBits, hSet⟩ := foldlM_apply (isPermissions_iff.mp hCurrent) ks
  refine ⟨String.ofList ds, ?_, ?_, fun c a => ?_⟩
  · rw [Mode.apply]
    simp only [hNonempty, hDigits, Bool.false_eq_true, if_false, hClauses, hds]
    rfl
  · rw [isPermissions_iff, String.toList_ofList]
    exact hBits
  · rw [isSet, String.toList_ofList, hSet]
    rfl

/-- What is accepted is written in one of the two ways. -/
theorem written_of_apply (h : Mode.apply expression current = .ok permissions) :
    (∃ digits, IsOctal expression digits) ∨ ∃ ks, IsSymbolic expression ks := by
  unfold Mode.apply at h
  dsimp only at h
  split at h
  · cases h
  · split at h
    · rename_i hDigits
      rw [ofOctal, String.toList_ofList] at h
      split at h
      · cases h
      · rename_i hOctal
        obtain ⟨ds, hText, hLength, hAll⟩ := (isOctal_iff hDigits).mp (by simpa using hOctal)
        refine .inl ⟨String.ofList ds, ?_, ?_, ?_⟩
        all_goals rwa [String.toList_ofList]
    · split at h
      · cases h
      · rename_i ks hClauses
        obtain ⟨hne, hText⟩ := clauses?_eq_some_iff.mp hClauses
        exact .inr ⟨ks, hne, hText⟩

theorem eq_of_isSet (h : Draft.isPermissions current = true)
    (h' : Draft.isPermissions permissions = true) (hSet : ∀ c a, isSet current c a = isSet permissions c a) :
    current = permissions := by
  apply String.toList_inj.mp
  refine Bits.ext (isPermissions_iff.mp h) (isPermissions_iff.mp h') fun c a => ?_
  have hBit := hSet c a
  rwa [isSet, isSet, Bool.eq_iff_iff, beq_iff_eq, beq_iff_eq] at hBit

end

/-- Whether a mode is accepted is told by its text alone, and it makes permission texts of permission texts. Octal
digits make the one that they can be read off from, clauses settle every bit from left to right, and neither
changes anything the second time. -/
theorem apply_exact {expression current : String} (hCurrent : Draft.isPermissions current = true) :
    ((∃ permissions, apply expression current = .ok permissions) ↔
      (∃ digits, IsOctal expression digits) ∨ ∃ ks, IsSymbolic expression ks) ∧
    (∀ permissions, apply expression current = .ok permissions →
      Draft.isPermissions permissions = true ∧ apply expression permissions = .ok permissions) ∧
    (∀ digits, IsOctal expression digits →
      ∃ permissions, toOctal permissions = .ok digits ∧ ∀ other, apply expression other = .ok permissions) ∧
    ∀ ks, IsSymbolic expression ks → ∃ permissions, apply expression current = .ok permissions ∧
      ∀ c a, isSet permissions c a = settleAll ks c a (isSet current c a) := by
  refine ⟨⟨fun ⟨_, h⟩ => written_of_apply h, ?_⟩, fun permissions h => ?_, fun digits h => h.apply, fun ks h => ?_⟩
  · rintro (⟨digits, h⟩ | ⟨ks, h⟩)
    · obtain ⟨permissions, -, hApply⟩ := h.apply
      exact ⟨permissions, hApply current⟩
    · obtain ⟨permissions, hApply, -⟩ := h.apply hCurrent
      exact ⟨permissions, hApply⟩
  · have hPermissions := isPermissions_apply hCurrent h
    refine ⟨hPermissions, ?_⟩
    rcases written_of_apply h with ⟨digits, hOctal⟩ | ⟨ks, hSymbolic⟩
    · obtain ⟨again, -, hApply⟩ := hOctal.apply
      cases (hApply current).symm.trans h
      exact hApply permissions
    · obtain ⟨first, hFirst, -, hSet⟩ := hSymbolic.apply hCurrent
      cases hFirst.symm.trans h
      obtain ⟨again, hAgain, hValid, hSetAgain⟩ := hSymbolic.apply hPermissions
      -- the clauses settle each bit to what they have settled it to before
      have hSame : again = permissions := eq_of_isSet hValid hPermissions fun c a => by
        rw [hSetAgain, hSet, settleAll_settleAll]
      rw [hAgain, hSame]
  · obtain ⟨permissions, hApply, -, hSet⟩ := h.apply hCurrent
    exact ⟨permissions, hApply, hSet⟩

/-- Letters may be repeated and stand in any order, and an assignment may name none. -/
theorem bits_settled : Draft.isPermissions "rw-r--r--" = true ∧
    IsSymbolic "gu+xx,o=" [⟨['g', 'u'], .add, ['x', 'x']⟩, ⟨['o'], .assign, []⟩] ∧
    apply "gu+xx,o=" "rw-r--r--" = .ok "rwxr-x---" ∧ Draft.isPermissions "rwxr-x---" = true ∧
      apply "gu+xx,o=" "rwxr-x---" = .ok "rwxr-x---" ∧ ∀ c a, isSet "rwxr-x---" c a =
        settleAll [⟨['g', 'u'], .add, ['x', 'x']⟩, ⟨['o'], .assign, []⟩] c a (isSet "rw-r--r--" c a) := by
  have hCurrent : Draft.isPermissions "rw-r--r--" = true := by decide
  have hSymbolic : IsSymbolic "gu+xx,o=" [⟨['g', 'u'], .add, ['x', 'x']⟩, ⟨['o'], .assign, []⟩] := by
    have hClauses : clauses? "gu+xx,o=".toList = some [⟨['g', 'u'], .add, ['x', 'x']⟩, ⟨['o'], .assign, []⟩] := by
      decide
    obtain ⟨hne, hText⟩ := clauses?_eq_some_iff.mp hClauses
    exact ⟨hne, hText⟩
  obtain ⟨-, hTwice, -, hSettled⟩ := @apply_exact "gu+xx,o=" "rw-r--r--" hCurrent
  have hResult : apply "gu+xx,o=" "rw-r--r--" = .ok "rwxr-x---" := by decide
  obtain ⟨permissions, hApply, hSet⟩ := hSettled _ hSymbolic
  cases hResult.symm.trans hApply
  obtain ⟨hPermissions, hAgain⟩ := hTwice _ hResult
  exact ⟨hCurrent, hSymbolic, hResult, hPermissions, hAgain, hSet⟩

end VirtualShell.Mode
