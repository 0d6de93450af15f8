import VirtualShell.Proofs.Line.Lexemes

/-!
# Operators without a target

Redirects are taken out of a line from right to left, each with the first word that it finds behind its operator.
What it leaves over goes to the operator before it. `parse_unexpectedNewline_iff` says for which lines one of them
finds no word, and how this compares with the operators that have no word directly behind them.
-/
namespace VirtualShell.Line
set_option autoImplicit false

variable {cs s before last : List Char} {xs ys zs rest : List (List Char)}

/-- How many words the first of some operators finds when those behind it have taken one each. The texts are the
sections behind these operators. No operator at all lacks none. -/
def supply : List (List Char) → Nat
  | [] => 1
  | s :: rest => (words s).length + (supply rest - 1) - if endsEscaped s && 1 < supply rest then 1 else 0

def Starved (xs : List (List Char)) : Prop := ∃ behind, behind <:+ xs ∧ supply behind = 0

theorem not_starved_nil : ¬Starved [] := by
  rintro ⟨behind, hSuffix, hSupply⟩
  rw [List.suffix_nil.mp hSuffix] at hSupply
  cases hSupply

theorem starved_cons : Starved (s :: rest) ↔ supply (s :: rest) = 0 ∨ Starved rest := by
  constructor
  · rintro ⟨behind, hSuffix, hSupply⟩
    rcases List.suffix_cons_iff.mp hSuffix with rfl | hRest
    · exact .inl hSupply
    · exact .inr ⟨behind, hRest, hSupply⟩
  · rintro (hSupply | ⟨behind, hSuffix, hSupply⟩)
    · exact ⟨_, List.suffix_refl _, hSupply⟩
    · exact ⟨behind, hSuffix.trans (List.suffix_cons s rest), hSupply⟩

/-- What operators further to the right take does not matter but for what it leaves. -/
theorem supply_append (h : supply ys = supply zs) (xs : List (List Char)) : supply (xs ++ ys) = supply (xs ++ zs) := by
  induction xs with
  | nil => exact h
  | cons x xs ih => rw [List.cons_append, List.cons_append, supply, supply, ih]

theorem starved_append (h : supply ys = supply zs) (hStarved : Starved ys ↔ Starved zs) (xs : List (List Char)) :
    Starved (xs ++ ys) ↔ Starved (xs ++ zs) := by
  induction xs with
  | nil => exact hStarved
  | cons x xs ih =>
    have hSupply := supply_append h (x :: xs)
    rw [List.cons_append, List.cons_append] at hSupply ⊢
    rw [starved_cons, starved_cons, ih, hSupply]

theorem supply_singleton (s : List Char) : supply [s] = (words s).length := by
  simp [supply]

theorem starved_singleton : Starved [s] ↔ words s = [] := by
  rw [starved_cons, supply_singleton, List.length_eq_zero_iff, or_iff_left not_starved_nil]

/-- A redirect that is taken out leaves to the operators before it what they find without it. -/
theorem supply_taken (hBefore : Quote.run .bare before = .bare) (hLast : isBalanced last = true) :
    supply [before, last] = supply [glue before (afterWord last)] := by
  have hAfter := length_words_afterWord (isBalanced_iff.mp hLast)
  -- something is left over exactly if there is a second word
  have hMore : (!(afterWord last).isEmpty) = decide (1 < (words last).length) := by
    by_cases hNil : afterWord last = []
    · rw [hNil] at hAfter ⊢
      have hNone : 0 = (words last).length - 1 := hAfter
      exact (decide_eq_false (by omega)).symm
    · have hPos := List.length_pos_iff.mpr (words_ne_nil (fun c hc => isBlank_head?_afterWord hc) hNil)
      rw [List.isEmpty_eq_false_iff.mpr hNil]
      exact (decide_eq_true (by omega)).symm
  rw [supply_singleton, length_words_glue hBefore fun c hc => isBlank_head?_afterWord hc, supply, supply_singleton,
    hAfter, hMore]

theorem starved_taken (hBefore : Quote.run .bare before = .bare) (hLast : isBalanced last = true)
    (hWords : words last ≠ []) : Starved [before, last] ↔ Starved [glue before (afterWord last)] := by
  rw [starved_cons, supply_taken hBefore hLast, starved_singleton, or_iff_left hWords, starved_singleton,
    supply_singleton, List.length_eq_zero_iff]

theorem dropRedirects_starved {fuel : Nat} (hFuel : operatorCount cs ≤ fuel) (hBalanced : isBalanced cs = true) :
    dropRedirects fuel cs = .error .unexpectedNewline ↔ Starved (sections cs).tail := by
  refine dropRedirects_keeps
    (P := fun cs result => isBalanced cs = true → (result = .error .unexpectedNewline ↔ Starved (sections cs).tail))
    ?_ ?_ ?_ hFuel hBalanced
  · intro cs hNone hBalanced
    rw [sections, sectionsFrom_eq_of_not_mem hNone]
    refine ⟨fun h => ?_, fun h => absurd h not_starved_nil⟩
    cases h
  · intro cs init before last hSections hWords hBalanced
    have hTail : (sections cs).tail = (init ++ [before]).tail ++ [last] := by
      rw [hSections]
      cases init <;> simp
    refine ⟨fun _ => ⟨[last], ?_, ?_⟩, fun _ => rfl⟩
    · rw [hTail]
      exact List.suffix_append _ _
    · rw [supply_singleton, hWords]
      rfl
  · intro cs init before last r result hSections hBefore hLast hWords hTaken hLeft hBalanced
    rw [hBalanced] at hLast
    rw [hLeft (hTaken.balanced hBalanced), hTaken.tail_sections, hSections]
    cases init with
    | nil => exact ⟨fun h => absurd h not_starved_nil, fun h => absurd (starved_singleton.mp h) hWords⟩
    -- the section that what is left over is glued to stands behind an operator itself
    | cons first init =>
      exact (starved_append (supply_taken hBefore hLast) (starved_taken hBefore hLast hWords) init).symm

theorem splitLine_unexpectedNewline_iff (hBalanced : isBalanced cs = true) :
    splitLine cs = .error .unexpectedNewline ↔ Starved (sections cs).tail := by
  obtain ⟨fuel, redirect, hFuel, hSplit, -⟩ := exists_splitLine_eq hBalanced
  rw [← dropRedirects_starved hFuel hBalanced, hSplit, Result.map_eq_error_iff]

theorem readStages_eq_error {parts : List (List Char)} {fault : LineFault} (h : readStages parts = .error fault) :
    fault = .unexpectedPipe := by
  induction parts with
  | nil => cases h
  | cons part parts ih =>
    rw [readStages, List.mapM_cons, Result.bind_eq_error_iff] at h
    rcases h with hPart | ⟨stage, -, h⟩
    · rw [readPart] at hPart
      split at hPart <;> cases hPart
      rfl
    · rcases Result.bind_eq_error_iff.mp h with hRest | ⟨stages, -, h⟩
      · exact ih hRest
      · cases h

/-- Only the redirects make a line end too early. -/
theorem readLine_unexpectedNewline_iff (line : String) :
    readLine line cs = .error .unexpectedNewline ↔ splitLine cs = .error .unexpectedNewline := by
  rw [readLine, Result.bind_eq_error_iff]
  refine or_iff_left ?_
  rintro ⟨⟨command, redirect⟩, -, h⟩
  dsimp only at h
  split at h
  · rcases Result.bind_eq_error_iff.mp h with hStages | ⟨stages, -, h⟩
    · cases readStages_eq_error hStages
    · cases h
  · split at h <;> cases h

theorem parse_eq_error_iff {line : String} {fault : LineFault} :
    parse line = .error fault line ↔ readLine line (Text.trim line.toList) = .error fault := by
  rw [parse]
  split
  · rename_i hBlank
    rw [hBlank]
    constructor
    · intro h
      cases h
    · intro h
      cases h
  · cases hRead : readLine line (Text.trim line.toList) with
    | error first => simp
    | ok parsed =>
      constructor
      · intro h
        obtain rfl : parsed = .error fault line := h
        obtain ⟨command, redirect, -, ⟨-, _, _, hParsed⟩ | ⟨-, _, _, hParsed⟩ | hParsed⟩ :=
          exists_of_readLine hRead <;> cases hParsed
      · intro h
        cases h

theorem starved_trimRight (h : (Quote.run .bare cs).isOpen = false) :
    Starved (sections (Text.trimRight cs)).tail ↔ Starved (sections cs).tail := by
  obtain ⟨init, last, hSections, hRun, hEq⟩ := exists_sections_trimRight cs
  have hTrimmed := hEq [] List.not_mem_nil
  rw [List.append_nil, List.append_nil] at hTrimmed
  have hWords : (words (Text.trimRight last)).length = (words last).length := length_words_trimRight (by rw [hRun, h])
  rw [hTrimmed, hSections]
  cases init with
  | nil => exact Iff.rfl
  | cons first init =>
    refine starved_append ?_ ?_ init
    · rw [supply_singleton, supply_singleton, hWords]
    · rw [starved_singleton, starved_singleton, ← List.length_eq_zero_iff, hWords, List.length_eq_zero_iff]

theorem parse_eq_unexpectedNewline_iff {line : String} (hBalanced : isBalanced line.toList = true) :
    parse line = .error .unexpectedNewline line ↔ Starved (sections line.toList).tail := by
  have hTrimmed : isBalanced (Text.trim line.toList) = true := by rwa [isBalanced_trim]
  rw [parse_eq_error_iff, readLine_unexpectedNewline_iff, splitLine_unexpectedNewline_iff hTrimmed, Text.trim,
    starved_trimRight, tail_sections_trimLeft]
  rwa [isOpen_run_trimLeft, ← isBalanced_iff]

/-- Whether what follows an operator directly is no word. -/
def lacksWord (next : Option Lexeme) : Bool := !next.any Lexeme.isWord

theorem anyOperator_lacksWord (cs : List Char) :
    anyOperator lacksWord (lexemes cs) = (sections cs).tail.any fun s => lacksWord (lexemes s).head? :=
  anyOperator_lexemes (fun _ => rfl) cs

theorem supply_pos_of_words (h : words s ≠ []) (rest : List (List Char)) : 0 < supply (s :: rest) := by
  have hPos := List.length_pos_iff.mpr h
  rw [supply]
  split
  · rename_i hGlued
    rw [Bool.and_eq_true, decide_eq_true_iff] at hGlued
    omega
  · omega

/-- An operator that finds no word has none behind it. -/
theorem exists_of_starved (h : Starved xs) : ∃ s ∈ xs, words s = [] := by
  obtain ⟨behind, hSuffix, hSupply⟩ := h
  cases behind with
  | nil => cases hSupply
  | cons s rest =>
    refine ⟨s, hSuffix.subset List.mem_cons_self, ?_⟩
    by_cases hWords : words s = []
    · exact hWords
    · have hPos := supply_pos_of_words hWords rest
      omega

/-- Where nothing is left over, an operator finds what is behind it. -/
theorem supply_eq_of_short (h : ∀ s ∈ rest, (words s).length ≤ 1) (s : List Char) :
    supply (s :: rest) = (words s).length := by
  induction rest generalizing s with
  | nil => exact supply_singleton s
  | cons next rest ih =>
    obtain ⟨hNext, hRest⟩ := List.forall_mem_cons.mp h
    have hSupply := ih hRest next
    rw [supply, hSupply, if_neg]
    · omega
    · simp
      omega

theorem starved_iff_of_short (h : ∀ s ∈ xs.tail, (words s).length ≤ 1) : Starved xs ↔ ∃ s ∈ xs, words s = [] := by
  refine ⟨exists_of_starved, ?_⟩
  rintro ⟨s, hMem, hWords⟩
  obtain ⟨init, rest, rfl⟩ := List.append_of_mem hMem
  refine ⟨s :: rest, List.suffix_append _ _, ?_⟩
  rw [supply_eq_of_short, hWords]
  · rfl
  · intro t ht
    apply h
    cases init with
    | nil => exact ht
    | cons first init => exact List.mem_append_right init (List.mem_cons_of_mem s ht)

theorem lacksWord_of_words (h : words s = []) : lacksWord (lexemes s).head? = true := by
  rw [lexemes_eq_nil_iff.mpr (words_eq_nil_iff.mp h)]
  rfl

/-- A section that begins neither with a word nor with a pipe is blank. -/
theorem words_of_lacksWord (hNone : '>' ∉ bare s) (hPipe : (lexemes s).head? ≠ some .pipe)
    (h : lacksWord (lexemes s).head? = true) : words s = [] := by
  rw [words_eq_nil_iff, ← lexemes_eq_nil_iff]
  cases hLexemes : lexemes s with
  | nil => rfl
  | cons first ls =>
    rw [hLexemes] at h hPipe
    cases first with
    | word chars => cases h
    | pipe => exact absurd rfl hPipe
    | operator append =>
      have hFirst : Lexeme.operator append ∈ lexemesFrom .bare none s := by
        rw [← lexemes, hLexemes]
        exact List.mem_cons_self
      cases isOperator_of_mem_lexemesFrom hNone hFirst

/-- A balanced line is refused for a missing target if and only if some operator finds no word when those behind it
have taken theirs. Then some operator has no word directly behind it. An operator without one makes the line
faulty if none stands before a pipe and no section behind the second operator or a later one leaves a word over. -/
theorem parse_unexpectedNewline_iff {line : String} (hBalanced : isBalanced line.toList = true) :
    (∀ fault : LineFault, fault.message = "syntax error near unexpected token `newline'" ↔ fault = .unexpectedNewline) ∧
    (parse line = .error .unexpectedNewline line ↔ Starved (sections line.toList).tail) ∧
    (parse line = .error .unexpectedNewline line → anyOperator lacksWord (lexemes line.toList) = true) ∧
    (anyOperator (· == some .pipe) (lexemes line.toList) = false →
      (∀ s ∈ (sections line.toList).tail.tail, (words s).length ≤ 1) →
      anyOperator lacksWord (lexemes line.toList) = true → parse line = .error .unexpectedNewline line) := by
  have hIff := parse_eq_unexpectedNewline_iff hBalanced
  rw [anyOperator_lacksWord, anyOperator_lexemes fun _ => rfl, hIff, List.any_eq_true, List.any_eq_false]
  refine ⟨fun fault => ?_, Iff.rfl, fun h => ?_, fun hPipe hShort ⟨s, hMem, hLacks⟩ => ?_⟩
  · cases fault <;> decide
  · obtain ⟨s, hMem, hWords⟩ := exists_of_starved h
    exact ⟨s, hMem, lacksWord_of_words hWords⟩
  · have hFirst : (lexemes s).head? ≠ some .pipe := fun h => hPipe s hMem (beq_iff_eq.mpr h)
    exact (starved_iff_of_short hShort).mpr ⟨s, hMem, words_of_lacksWord (not_mem_of_mem_sections hMem) hFirst hLacks⟩

/-- In the first line an escaped blank glues the word that is left over to another, so that none is left for the first
operator. In the second line nothing is left over. -/
theorem parse_unexpectedNewline_glued :
    let line := "x > > a\\ > f b"
    let short := "ls >f>> > 'g h'"
    isBalanced line.toList = true ∧ supply (sections line.toList).tail = 0 ∧
      parse line = .error .unexpectedNewline line ∧ anyOperator lacksWord (lexemes line.toList) = true ∧
    isBalanced short.toList = true ∧ anyOperator (· == some .pipe) (lexemes short.toList) = false ∧
      (∀ s ∈ (sections short.toList).tail.tail, (words s).length ≤ 1) ∧
      anyOperator lacksWord (lexemes short.toList) = true ∧ parse short = .error .unexpectedNewline short := by
  have hLine : isBalanced "x > > a\\ > f b".toList = true := by decide +kernel
  have hSupply : supply (sections "x > > a\\ > f b".toList).tail = 0 := by decide +kernel
  have hShort : isBalanced "ls >f>> > 'g h'".toList = true := by decide +kernel
  have hPipe : anyOperator (· == some .pipe) (lexemes "ls >f>> > 'g h'".toList) = false := by decide +kernel
  have hWords : ∀ s ∈ (sections "ls >f>> > 'g h'".toList).tail.tail, (words s).length ≤ 1 := by decide +kernel
  have hLacks : anyOperator lacksWord (lexemes "ls >f>> > 'g h'".toList) = true := by decide +kernel
  obtain ⟨-, hFault, hLacksWord, -⟩ := parse_unexpectedNewline_iff hLine
  obtain ⟨-, -, -, hRefused⟩ := parse_unexpectedNewline_iff hShort
  have hParse := hFault.mpr ⟨_, List.suffix_refl _, hSupply⟩
  exact ⟨hLine, hSupply, hParse, hLacksWord hParse, hShort, hPipe, hWords, hLacks, hRefused hPipe hWords hLacks⟩

/-- An operator without a word behind it does not always make a line faulty: here it takes the word that the
operator behind it leaves over. -/
theorem not_unexpectedNewline_of_leftover : ¬∀ line : String, isBalanced line.toList = true →
    (parse line = .error .unexpectedNewline line ↔ anyOperator lacksWord (lexemes line.toList) = true) := by
  intro h
  have hLacks : anyOperator lacksWord (lexemes "echo > > f g".toList) = true := by decide +kernel
  have hParse : parse "echo > > f g" = .command ⟨"echo", [], [], "echo"⟩ (some ⟨false, "f"⟩) := by decide +kernel
  have hFault := (h "echo > > f g" (by decide +kernel)).mpr hLacks
  rw [hParse] at hFault
  cases hFault

/-- A pipe behind an operator is a word to the redirect. -/
example : parse "ls > | wc" = .command ⟨"ls", ["wc"], [], "ls wc"⟩ (some ⟨false, "|"⟩) := by decide +kernel

end VirtualShell.Line
