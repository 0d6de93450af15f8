import VirtualShell.Proofs.Line.Shows

/-!
# Quoted words

Whatever a word holds, outside of quotes its quoted text shows nothing but quotes and backslashes, and
the words of a stage are read back from their texts.
-/
namespace VirtualShell.Line
set_option autoImplicit false

/-- Quotes and backslashes are all that a quoted word shows. -/
def IsMark (c : Char) : Prop := c = '\x27' ∨ c = '\x5c'

theorem not_isMark_operator : ¬IsMark '>' := by
  rintro (h | h) <;> exact absurd h (by decide)

theorem IsMark.not_blank {c : Char} (h : IsMark c) : Text.isBlank c = false := by
  obtain rfl | rfl := h <;> decide

theorem shows_quoted (cs : List Char) : Shows IsMark .single (cs.flatMap quotedChar ++ ['\x27']) := by
  induction cs with
  | nil => exact ⟨nofun, rfl⟩
  | cons c cs ih =>
    rw [List.flatMap_cons, List.append_assoc, quotedChar]
    split
    · exact ⟨nofun, fun _ => .inr rfl, nofun, fun _ => .inl rfl, ih⟩
    · rename_i hc
      have hStep : Quote.single.step c = .single := if_neg hc
      refine ⟨nofun, ?_⟩
      rw [hStep]
      exact ih

theorem shows_quoteChars (cs : List Char) : Shows IsMark .bare (quoteChars cs) :=
  ⟨fun _ => .inl rfl, shows_quoted cs⟩

theorem wordsFrom_quoted (cs word rest : List Char) :
    wordsFrom .single (some word) (cs.flatMap quotedChar ++ '\x27' :: rest) =
      wordsFrom .bare (some (cs.reverse ++ word)) rest := by
  induction cs generalizing word with
  | nil => rfl
  | cons c cs ih =>
    rw [List.flatMap_cons, List.append_assoc, quotedChar]
    split
    · rename_i hc
      rw [beq_iff_eq] at hc
      subst hc
      rw [List.reverse_cons, List.append_assoc, List.singleton_append, ← ih]
      rfl
    · rename_i hc
      have hMarks : ¬Quote.single.marks c = true := hc
      have hStep : Quote.single.step c = .single := if_neg hc
      rw [List.singleton_append, wordsFrom, if_neg (by rintro ⟨⟩), if_neg hMarks, hStep, List.reverse_cons,
        List.append_assoc, List.singleton_append, ← ih]
      rfl

/-- A quoted word goes on with the word that is being read, if there is one. -/
theorem wordsFrom_quoteChars (cs : List Char) (word : Option (List Char)) (rest : List Char) :
    wordsFrom .bare word (quoteChars cs ++ rest) = wordsFrom .bare (some (cs.reverse ++ word.getD [])) rest := by
  rw [← wordsFrom_quoted, quoteChars, List.cons_append, List.append_assoc]
  rfl

def stageChars (ws : List (List Char)) : List Char := [' '].intercalate (ws.map quoteChars)

theorem stageChars_cons_cons (w v : List Char) (ws : List (List Char)) :
    stageChars (w :: v :: ws) = quoteChars w ++ ' ' :: stageChars (v :: ws) := by
  simp [stageChars, List.intercalate_cons_cons]

theorem stageChars_singleton (w : List Char) : stageChars [w] = quoteChars w := List.intercalate_singleton

theorem words_stageChars (ws : List (List Char)) : words (stageChars ws) = ws := by
  induction ws with
  | nil => rfl
  | cons w ws ih =>
    cases ws with
    | nil =>
      rw [stageChars_singleton, words, ← List.append_nil (quoteChars w), wordsFrom_quoteChars]
      simp [wordsFrom, Quote.isEscape]
    | cons v ws =>
      rw [stageChars_cons_cons, words, wordsFrom_quoteChars]
      show (w.reverse ++ []).reverse :: words (stageChars (v :: ws)) = _
      rw [ih, List.append_nil, List.reverse_reverse]

/-- What a stage shows: its marks, and the blanks between its words. -/
def IsStageMark (c : Char) : Prop := IsMark c ∨ c = ' '

theorem not_isStageMark_pipe : ¬IsStageMark '|' := by
  rintro ((h | h) | h) <;> exact absurd h (by decide)

theorem shows_stageChars (ws : List (List Char)) : Shows IsStageMark .bare (stageChars ws) := by
  have hWord : ∀ w, Shows IsStageMark .bare (quoteChars w) :=
    fun w => (shows_quoteChars w).mono fun c hc => .inl hc
  induction ws with
  | nil => rfl
  | cons w ws ih =>
    cases ws with
    | nil =>
      rw [stageChars_singleton]
      exact hWord w
    | cons v ws =>
      rw [stageChars_cons_cons]
      exact (hWord w).append ⟨fun _ => .inr rfl, ih⟩

structure Framed (cs : List Char) : Prop where
  first : ∃ c, cs.head? = some c ∧ Text.isBlank c = false
  last : ∃ c, cs.getLast? = some c ∧ Text.isBlank c = false

theorem Framed.ne_nil {cs : List Char} (h : Framed cs) : cs ≠ [] := by
  rintro rfl
  obtain ⟨c, hc, -⟩ := h.first
  cases hc

theorem framed_quoteChars (cs : List Char) : Framed (quoteChars cs) := by
  refine ⟨⟨'\x27', rfl, by decide⟩, '\x27', ?_, by decide⟩
  rw [quoteChars, ← List.cons_append, List.getLast?_concat]

theorem Framed.append {cs ds : List Char} (h : Framed cs) (hd : Framed ds) (middle : List Char) :
    Framed (cs ++ middle ++ ds) := by
  obtain ⟨first, hFirst, hFirstBlank⟩ := h.first
  obtain ⟨last, hLast, hLastBlank⟩ := hd.last
  refine ⟨⟨first, ?_, hFirstBlank⟩, last, ?_, hLastBlank⟩
  · rw [List.append_assoc, List.head?_append, hFirst]
    rfl
  · rw [List.getLast?_append, hLast]
    rfl

theorem framed_stageChars {ws : List (List Char)} (h : ws ≠ []) : Framed (stageChars ws) := by
  induction ws with
  | nil => exact absurd rfl h
  | cons w ws ih =>
    cases ws with
    | nil =>
      rw [stageChars_singleton]
      exact framed_quoteChars w
    | cons v ws =>
      rw [stageChars_cons_cons, ← List.singleton_append, ← List.append_assoc]
      exact (framed_quoteChars w).append (ih (List.cons_ne_nil v ws)) [' ']

theorem dropWhile_append_of_all {α : Type} {p : α → Bool} {xs ys : List α} (hx : xs.all p = true)
    (hy : ∀ y, ys.head? = some y → p y = false) : (xs ++ ys).dropWhile p = ys := by
  rw [List.dropWhile_append_of_pos (by simpa using hx)]
  cases ys with
  | nil => rfl
  | cons y ys => rw [List.dropWhile_cons_of_neg (by simp [hy y rfl])]

theorem Framed.trimLeft_append {cs : List Char} (h : Framed cs) {before : List Char}
    (hBefore : before.all Text.isBlank = true) (after : List Char) :
    Text.trimLeft (before ++ (cs ++ after)) = cs ++ after := by
  obtain ⟨first, hFirst, hBlank⟩ := h.first
  apply dropWhile_append_of_all hBefore
  intro c hc
  rw [List.head?_append, hFirst] at hc
  cases hc
  exact hBlank

theorem Framed.trimRight_append {cs : List Char} (h : Framed cs) {after : List Char}
    (hAfter : after.all Text.isBlank = true) : Text.trimRight (cs ++ after) = cs := by
  obtain ⟨last, hLast, hBlank⟩ := h.last
  rw [Text.trimRight, List.reverse_append, dropWhile_append_of_all, List.reverse_reverse]
  · rwa [List.all_reverse]
  · intro c hc
    rw [List.head?_reverse, hLast] at hc
    cases hc
    exact hBlank

theorem Framed.trim_append {cs : List Char} (h : Framed cs) {before after : List Char}
    (hBefore : before.all Text.isBlank = true) (hAfter : after.all Text.isBlank = true) :
    Text.trim (before ++ (cs ++ after)) = cs := by
  rw [Text.trim, h.trimLeft_append hBefore, h.trimRight_append hAfter]

theorem Framed.trim_eq {cs : List Char} (h : Framed cs) : Text.trim cs = cs := by
  have hTrim := h.trim_append (List.all_nil (f := Text.isBlank)) (List.all_nil (f := Text.isBlank))
  rwa [List.nil_append, List.append_nil] at hTrim

end VirtualShell.Line
