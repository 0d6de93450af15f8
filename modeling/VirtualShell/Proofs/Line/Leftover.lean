import VirtualShell.Proofs.Line.Words

/-!
# What a redirect leaves over

A redirect takes the first word behind its operator. What stands behind that word is left over, and is glued to
the text before the operator. Nothing but blanks is lost or put in there; but where the text ends in an escaped
blank, the word that it ends in and the first word left over become one.
-/
namespace VirtualShell.Line
set_option autoImplicit false

variable {q : Quote} {b c : Char} {cs ds blanks leftover : List Char}

def wordTextFrom (q : Quote) : List Char → List Char
  | [] => []
  | c :: cs => if q.separates c then [] else c :: wordTextFrom (q.step c) cs

def wordText (cs : List Char) : List Char := wordTextFrom .bare (Text.trimLeft cs)

/-- A word ends at a blank outside of quotes or with the text, and what stands behind it is trimmed. -/
theorem exists_wordTextFrom_append (q : Quote) (cs : List Char) :
    ∃ rest, cs = wordTextFrom q cs ++ rest ∧ afterWordFrom q cs = Text.trim rest ∧
      (rest = [] ∨ q.run (wordTextFrom q cs) = .bare ∧ ∃ b rest', rest = b :: rest' ∧ Text.isBlank b = true) := by
  induction cs generalizing q with
  | nil => exact ⟨[], rfl, rfl, .inl rfl⟩
  | cons c cs ih =>
    rw [wordTextFrom, afterWordFrom]
    split
    · rename_i hSeparates
      obtain ⟨rfl, hBlank⟩ := eq_of_separates hSeparates
      exact ⟨c :: cs, rfl, rfl, .inr ⟨rfl, c, cs, rfl, hBlank⟩⟩
    · obtain ⟨rest, hCs, hAfter, hRest⟩ := ih (q.step c)
      exact ⟨rest, congrArg (c :: ·) hCs, hAfter, hRest⟩

/-- A text around its first word. -/
theorem exists_of_wordText (cs : List Char) :
    ∃ blanks rest, blanks.all Text.isBlank = true ∧ cs = blanks ++ (wordText cs ++ rest) ∧
      afterWord cs = Text.trim rest ∧
      (rest = [] ∨ Quote.run .bare (wordText cs) = .bare ∧ ∃ b rest', rest = b :: rest' ∧ Text.isBlank b = true) := by
  obtain ⟨rest, hCs, hAfter, hRest⟩ := exists_wordTextFrom_append .bare (Text.trimLeft cs)
  refine ⟨cs.takeWhile Text.isBlank, rest, List.all_takeWhile, ?_, hAfter, hRest⟩
  calc cs
    _ = cs.takeWhile Text.isBlank ++ Text.trimLeft cs := List.takeWhile_append_dropWhile.symm
    _ = _ := congrArg _ hCs

theorem isOpen_run_afterWord (h : (Quote.run .bare cs).isOpen = false) :
    (Quote.run .bare (afterWord cs)).isOpen = false := by
  obtain ⟨blanks, rest, hBlanks, hCs, hAfter, hRest⟩ := exists_of_wordText cs
  rw [hAfter, isOpen_run_trim]
  rcases hRest with rfl | ⟨hWord, -⟩
  · rfl
  · rwa [hCs, Quote.run_append, run_blanks hBlanks, Quote.run_append, hWord] at h

/-- The first word and what stands behind it have all that is not blank. -/
theorem count_bare_wordText (hc : Text.isBlank c = false) (cs : List Char) :
    (bare (wordText cs)).count c + (bare (afterWord cs)).count c = (bare cs).count c := by
  obtain ⟨blanks, rest, hBlanks, hCs, hAfter, hRest⟩ := exists_of_wordText cs
  have hRestCount : (bareFrom (Quote.run .bare (wordText cs)) rest).count c = (bare rest).count c := by
    rcases hRest with rfl | ⟨hWord, -⟩
    · rfl
    · rw [hWord, bare]
  calc (bare (wordText cs)).count c + (bare (afterWord cs)).count c
    _ = (bare (blanks ++ (wordText cs ++ rest))).count c := by
      rw [hAfter, count_bare_trim hc, ← hRestCount, bare, bare, bareFrom_append, run_blanks hBlanks, bareFrom_append,
        List.count_append, List.count_append, count_bareFrom_blanks _ hc hBlanks, Nat.zero_add]
    _ = (bare cs).count c := by rw [← hCs]

theorem not_mem_bare_afterWord (hc : Text.isBlank c = false) (h : c ∉ bare cs) : c ∉ bare (afterWord cs) := by
  rw [← List.count_eq_zero] at h ⊢
  have hCount := count_bare_wordText hc cs
  omega

theorem length_wordsFrom_wordTextFrom (q : Quote) (word : Option (List Char)) (cs : List Char) :
    (wordsFrom q word (wordTextFrom q cs)).length ≤ 1 := by
  induction cs generalizing q word with
  | nil =>
    rw [wordTextFrom, wordsFrom]
    split
    · exact Nat.le_refl 1
    · exact Nat.zero_le 1
  | cons c cs ih =>
    rw [wordTextFrom]
    cases hSeparates : q.separates c with
    | true =>
      rw [if_pos rfl, wordsFrom]
      split
      · exact Nat.le_refl 1
      · exact Nat.zero_le 1
    | false =>
      rw [if_neg Bool.false_ne_true, wordsFrom_cons hSeparates]
      exact ih _ _

theorem isBlank_head?_trim (h : (Text.trim cs).head? = some c) : Text.isBlank c = false := by
  have hSome : Text.trim cs ≠ [] := by
    intro hNil
    rw [hNil] at h
    cases h
  obtain ⟨first, hFirst, hBlank⟩ := (framed_trim hSome).first
  rw [hFirst] at h
  cases h
  exact hBlank

theorem words_eq_nil_iff : words cs = [] ↔ cs.all Text.isBlank = true := by
  constructor
  · intro h
    by_cases hLeft : Text.trimLeft cs = []
    · rw [← List.takeWhile_append_dropWhile (p := Text.isBlank) (l := cs), ← Text.trimLeft, hLeft, List.append_nil]
      exact List.all_takeWhile
    · rw [← words_trimLeft] at h
      exact absurd h (words_ne_nil (fun c hc => isBlank_head?_dropWhile hc) hLeft)
  · exact fun h => wordsFrom_blanks h none

theorem words_wordText_ne_nil (h : Text.trimLeft cs ≠ []) : words (wordText cs) ≠ [] := by
  obtain ⟨c, rest, hLeft⟩ := List.exists_cons_of_ne_nil h
  have hBlank : Text.isBlank c = false := isBlank_head?_dropWhile (congrArg List.head? hLeft)
  have hSeparates := separates_of_not_blank .bare hBlank
  rw [wordText, hLeft, wordTextFrom, if_neg (by simp [hSeparates])]
  refine words_ne_nil ?_ (List.cons_ne_nil _ _)
  rintro c ⟨⟩
  exact hBlank

/-- The words of a text are its first word and those of the rest. -/
theorem exists_words_rest (cs : List Char) : ∃ rest, rest <:+ cs ∧ afterWord cs = Text.trim rest ∧
    words cs = words (wordText cs) ++ words rest ∧ (words rest ≠ [] → words (wordText cs) ≠ []) := by
  obtain ⟨blanks, rest, hBlanks, hCs, hAfter, hRest⟩ := exists_of_wordText cs
  have hWords : words cs = words (wordText cs ++ rest) := (congrArg words hCs).trans (words_blanks_append hBlanks _)
  refine ⟨rest, ⟨blanks ++ wordText cs, by rw [List.append_assoc, ← hCs]⟩, hAfter, ?_⟩
  rcases hRest with rfl | ⟨hWord, b, rest, rfl, hBlank⟩
  · rw [List.append_nil] at hWords
    exact ⟨hWords.trans (List.append_nil _).symm, fun h => absurd rfl h⟩
  · rw [words_append_separator hWord hBlank] at hWords
    have hRest : words (b :: rest) = words rest := wordsFrom_separator hBlank none rest
    rw [hRest]
    refine ⟨hWords, fun h => words_wordText_ne_nil ?_⟩
    intro hLeft
    rw [← words_trimLeft, hLeft] at hWords
    exact h (List.append_eq_nil_iff.mp hWords.symm).2

theorem words_wordText (cs : List Char) : words (wordText cs) = (words cs).take 1 := by
  obtain ⟨rest, -, -, hWords, hSome⟩ := exists_words_rest cs
  have hOne := length_wordsFrom_wordTextFrom .bare none (Text.trimLeft cs)
  rw [← wordText, ← words] at hOne
  by_cases hRest : words rest = []
  · rw [hWords, hRest, List.append_nil, List.take_of_length_le hOne]
  · have hLength : (words (wordText cs)).length = 1 := by
      have hPos := List.length_pos_iff.mpr (hSome hRest)
      omega
    rw [hWords, ← hLength, List.take_left]

theorem length_words_afterWord (hOpen : (Quote.run .bare cs).isOpen = false) :
    (words (afterWord cs)).length = (words cs).length - 1 := by
  obtain ⟨rest, -, hAfter, hWords, hSome⟩ := exists_words_rest cs
  have hRestOpen := isOpen_run_afterWord hOpen
  rw [hAfter, isOpen_run_trim] at hRestOpen
  have hFirst : (words (wordText cs)).length = min 1 (words cs).length := by
    rw [words_wordText, List.length_take]
  rw [hAfter, length_words_trim hRestOpen]
  have hLength := congrArg List.length hWords
  rw [List.length_append] at hLength
  by_cases hRest : words rest = []
  · rw [hRest, List.length_nil] at hLength ⊢
    omega
  · have hPos := List.length_pos_iff.mpr (hSome hRest)
    omega

/-- What stands before an operator, with what its redirect leaves over behind it. -/
def glue (before leftover : List Char) : List Char :=
  Text.trimRight before ++ if leftover.isEmpty then [] else ' ' :: leftover

theorem glue_nil (cs : List Char) : glue cs [] = Text.trimRight cs := List.append_nil _

theorem glue_of_ne_nil (h : leftover ≠ []) (cs : List Char) : glue cs leftover = Text.trimRight cs ++ ' ' :: leftover := by
  rw [glue, if_neg (by simpa using h)]

/-- A section before an operator is outside of quotes at its end, a backslash before its blanks apart. -/
theorem run_trimRight (h : Quote.run .bare cs = .bare) :
    Quote.run .bare (Text.trimRight cs) = .bare ∨ Quote.run .bare (Text.trimRight cs) = .bareEscape := by
  apply eq_of_not_isOpen
  rw [isOpen_run_trimRight, h]
  rfl

theorem endsEscaped_iff (h : Quote.run .bare cs = .bare) :
    endsEscaped cs = true ↔ Quote.run .bare (Text.trimRight cs) = .bareEscape := by
  rw [endsEscaped, Bool.and_eq_true, beq_iff_eq, bne_iff_ne, and_iff_left_iff_imp]
  intro hEscape hSame
  rw [hSame, h] at hEscape
  cases hEscape

/-- A blank takes back what a backslash has begun. -/
theorem bareFrom_blank_cons (hq : q = .bare ∨ q = .bareEscape) (hb : Text.isBlank b = true) (hc : Text.isBlank c = false) :
    (bareFrom q (b :: ds)).count c = (bare ds).count c := by
  rcases hq with rfl | rfl
  · have hne : b ≠ c := by
      rintro rfl
      rw [hb] at hc
      cases hc
    show (b :: bareFrom (Quote.bare.step b) ds).count c = _
    rw [step_blank hb, List.count_cons_of_ne hne, bare]
  · rfl

theorem count_bare_glue (h : Quote.run .bare cs = .bare) (hc : Text.isBlank c = false) (leftover : List Char) :
    (bare (glue cs leftover)).count c = (bare cs).count c + (bare leftover).count c := by
  by_cases hNil : leftover = []
  · rw [hNil, glue_nil, bare, count_bareFrom_trimRight _ hc]
    rfl
  · rw [glue_of_ne_nil hNil, bare, bareFrom_append, List.count_append, count_bareFrom_trimRight _ hc,
      bareFrom_blank_cons (run_trimRight h) (by decide) hc]
    rfl

theorem isOpen_run_glue (h : Quote.run .bare cs = .bare) (hLeftover : (Quote.run .bare leftover).isOpen = false) :
    (Quote.run .bare (glue cs leftover)).isOpen = false := by
  by_cases hNil : leftover = []
  · rw [hNil, glue_nil, isOpen_run_trimRight, h]
    rfl
  · rw [glue_of_ne_nil hNil, Quote.run_append]
    rcases run_trimRight h with hBare | hEscape
    · rwa [hBare]
    · rwa [hEscape]

/-- The words before an operator and those left over, one less where an escaped blank glues two of them. -/
theorem length_words_glue (h : Quote.run .bare cs = .bare)
    (hFirst : ∀ c, leftover.head? = some c → Text.isBlank c = false) :
    (words (glue cs leftover)).length =
      (words cs).length + (words leftover).length - if endsEscaped cs && !leftover.isEmpty then 1 else 0 := by
  have hOpen : (Quote.run .bare cs).isOpen = false := by
    rw [h]
    rfl
  by_cases hNil : leftover = []
  · rw [hNil, glue_nil, length_words_trimRight hOpen]
    simp [words, wordsFrom, Quote.isEscape]
  · rw [glue_of_ne_nil hNil]
    have hCount := length_words_trimRight hOpen
    cases hEscaped : endsEscaped cs with
    | false =>
      have hBare := (run_trimRight h).resolve_right fun hEscape => by
        rw [(endsEscaped_iff h).mpr hEscape] at hEscaped
        cases hEscaped
      rw [words_append_separator hBare (by decide), List.length_append, hCount]
      rfl
    | true =>
      -- the backslash that trimming leaves escapes the blank that is put in
      obtain ⟨ws, w, hWords, hNext⟩ := exists_words_of_escape ((endsEscaped_iff h).mp hEscaped)
      rw [hWords, List.length_append, List.length_singleton] at hCount
      rw [hNext, List.length_append, length_wordsFrom_glued hFirst hNil, ← hCount]
      simp [hNil]

theorem isBlank_getLast?_trimRight (h : (Text.trimRight cs).getLast? = some c) : Text.isBlank c = false := by
  rw [Text.trimRight, List.getLast?_reverse] at h
  exact isBlank_head?_dropWhile h

theorem trimRight_append_blanks (hLast : ∀ c, cs.getLast? = some c → Text.isBlank c = false)
    (h : blanks.all Text.isBlank = true) : Text.trimRight (cs ++ blanks) = cs := by
  rw [Text.trimRight, List.reverse_append, dropWhile_append_of_all, List.reverse_reverse]
  · rwa [List.all_reverse]
  · intro c hc
    rw [List.head?_reverse] at hc
    exact hLast c hc

theorem trimRight_eq_self (hLast : ∀ c, cs.getLast? = some c → Text.isBlank c = false) : Text.trimRight cs = cs := by
  have hTrim := trimRight_append_blanks hLast (List.all_nil (f := Text.isBlank))
  rwa [List.append_nil] at hTrim

theorem isBlank_getLast?_glue (hLast : ∀ c, leftover.getLast? = some c → Text.isBlank c = false)
    (h : (glue cs leftover).getLast? = some c) : Text.isBlank c = false := by
  by_cases hNil : leftover = []
  · rw [hNil, glue_nil] at h
    exact isBlank_getLast?_trimRight h
  · obtain ⟨l, hl⟩ := Option.isSome_iff_exists.mp (List.getLast?_isSome.mpr hNil)
    rw [glue_of_ne_nil hNil, List.getLast?_append, List.getLast?_cons, hl] at h
    cases h
    exact hLast _ hl

theorem isBlank_head?_afterWord (h : (afterWord cs).head? = some c) : Text.isBlank c = false := by
  obtain ⟨blanks, rest, -, -, hAfter, -⟩ := exists_of_wordText cs
  rw [hAfter] at h
  exact isBlank_head?_trim h

theorem isBlank_getLast?_afterWord (h : (afterWord cs).getLast? = some c) : Text.isBlank c = false := by
  obtain ⟨blanks, rest, -, -, hAfter, -⟩ := exists_of_wordText cs
  rw [hAfter] at h
  exact isBlank_getLast?_trimRight h

end VirtualShell.Line
