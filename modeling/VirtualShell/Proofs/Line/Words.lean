import VirtualShell.Proofs.Line.Outside

/-!
# Words of a trimmed line

Blanks around a line are no part of its words, with one exception: a blank that a backslash escapes is part
of the last word, and trimming takes it away and leaves the backslash. `parse_words` says that a line without
pipes and redirects is read as a command with its own words, and what becomes of them in the exceptional case.
-/
namespace VirtualShell.Line
set_option autoImplicit false

variable {q : Quote} {b c : Char} {word : Option (List Char)} {cs ds blanks : List Char}

theorem wordsFrom_separator (h : Text.isBlank b = true) (word : Option (List Char)) (cs : List Char) :
    wordsFrom .bare word (b :: cs) = (word.map List.reverse).toList ++ words cs := by
  rw [wordsFrom.eq_def]
  dsimp only
  rw [if_pos (show Quote.separates .bare b = true from h)]
  cases word <;> rfl

theorem wordsFrom_cons (h : q.separates c = false) (word : Option (List Char)) (cs : List Char) :
    wordsFrom q word (c :: cs) =
      wordsFrom (q.step c) (some (if q.marks c then word.getD [] else c :: word.getD [])) cs := by
  rw [wordsFrom.eq_def]
  dsimp only
  rw [if_neg (by simp [h])]
  split <;> rfl

theorem eq_of_separates (h : q.separates c = true) : q = .bare ∧ Text.isBlank c = true := by
  simpa [Quote.separates] using h

theorem separates_of_not_blank (q : Quote) (h : Text.isBlank c = false) : q.separates c = false := by
  rw [Quote.separates, h, Bool.and_false]

theorem wordsFrom_blanks (h : blanks.all Text.isBlank = true) (word : Option (List Char)) :
    wordsFrom .bare word blanks = (word.map List.reverse).toList := by
  induction blanks generalizing word with
  | nil => cases word <;> rfl
  | cons b blanks ih =>
    rw [List.all_cons, Bool.and_eq_true] at h
    rw [wordsFrom_separator h.1, words, ih h.2]
    exact List.append_nil _

/-- The words up to some place, the last of them still open there, do not depend on what follows. Outside of
quotes none need be open. -/
theorem exists_wordsFrom_append (q : Quote) (word : Option (List Char)) (cs : List Char)
    (hWord : q ≠ .bare → word.isSome) :
    ∃ closed opened, (q.run cs ≠ .bare → opened.isSome) ∧
      ∀ ds, wordsFrom q word (cs ++ ds) = closed ++ wordsFrom (q.run cs) opened ds := by
  induction cs generalizing q word with
  | nil => exact ⟨[], word, hWord, fun ds => rfl⟩
  | cons c cs ih =>
    cases hSeparates : q.separates c with
    | true =>
      obtain ⟨rfl, hBlank⟩ := eq_of_separates hSeparates
      obtain ⟨closed, opened, hOpened, hEq⟩ := ih .bare none (absurd rfl)
      have hRun : Quote.run .bare (c :: cs) = Quote.run .bare cs := congrArg (Quote.run · cs) (step_blank hBlank)
      refine ⟨(word.map List.reverse).toList ++ closed, opened, hRun ▸ hOpened, fun ds => ?_⟩
      rw [List.cons_append, wordsFrom_separator hBlank, words, hEq, hRun, List.append_assoc]
    | false =>
      obtain ⟨closed, opened, hOpened, hEq⟩ := ih (q.step c) (some _) fun _ => rfl
      refine ⟨closed, opened, hOpened, fun ds => ?_⟩
      rw [List.cons_append, wordsFrom_cons hSeparates, hEq]
      rfl

/-- A word that is being read is a word in the end. -/
theorem wordsFrom_some_ne_nil (q : Quote) (w cs : List Char) : wordsFrom q (some w) cs ≠ [] := by
  induction cs generalizing q w with
  | nil => cases q <;> exact List.cons_ne_nil _ _
  | cons c cs ih =>
    cases hSeparates : q.separates c with
    | true =>
      obtain ⟨rfl, hBlank⟩ := eq_of_separates hSeparates
      rw [wordsFrom_separator hBlank]
      exact List.cons_ne_nil _ _
    | false =>
      rw [wordsFrom_cons hSeparates]
      exact ih _ _

theorem length_wordsFrom_some (q : Quote) (w w' cs : List Char) :
    (wordsFrom q (some w) cs).length = (wordsFrom q (some w') cs).length := by
  induction cs generalizing q w w' with
  | nil => cases q <;> rfl
  | cons c cs ih =>
    cases hSeparates : q.separates c with
    | true =>
      obtain ⟨rfl, hBlank⟩ := eq_of_separates hSeparates
      rw [wordsFrom_separator hBlank, wordsFrom_separator hBlank, List.length_append, List.length_append]
      rfl
    | false =>
      rw [wordsFrom_cons hSeparates, wordsFrom_cons hSeparates]
      exact ih _ _ _

theorem words_append_separator (hEnd : Quote.run .bare cs = .bare) (hb : Text.isBlank b = true) (ds : List Char) :
    words (cs ++ b :: ds) = words cs ++ words ds := by
  obtain ⟨closed, opened, -, hEq⟩ := exists_wordsFrom_append .bare none cs (absurd rfl)
  have hHere : words cs = closed ++ (opened.map List.reverse).toList := by
    rw [← List.append_nil cs, words, hEq, hEnd, wordsFrom_blanks rfl]
  rw [words, hEq, hEnd, wordsFrom_separator hb, hHere, List.append_assoc]

theorem words_append_blanks (hEnd : Quote.run .bare cs = .bare) (h : blanks.all Text.isBlank = true) :
    words (cs ++ blanks) = words cs := by
  cases blanks with
  | nil => rw [List.append_nil]
  | cons b blanks =>
    rw [List.all_cons, Bool.and_eq_true] at h
    rw [words_append_separator hEnd h.1]
    exact (congrArg _ (wordsFrom_blanks h.2 none)).trans (List.append_nil _)

theorem words_blanks_append (h : blanks.all Text.isBlank = true) (cs : List Char) : words (blanks ++ cs) = words cs := by
  induction blanks with
  | nil => rfl
  | cons b blanks ih =>
    rw [List.all_cons, Bool.and_eq_true] at h
    rw [List.cons_append, words, wordsFrom_separator h.1]
    exact ih h.2

theorem words_trimLeft (cs : List Char) : words (Text.trimLeft cs) = words cs := by
  have hWords := words_blanks_append (List.all_takeWhile (p := Text.isBlank) (l := cs)) (Text.trimLeft cs)
  rwa [Text.trimLeft, List.takeWhile_append_dropWhile, eq_comm] at hWords

/-- A backslash at the end of a text stands for itself, and else for what follows it. -/
theorem exists_words_of_escape (hEnd : Quote.run .bare cs = .bareEscape) :
    ∃ ws w, words cs = ws ++ [w ++ ['\x5c']] ∧
      ∀ c ds, words (cs ++ c :: ds) = ws ++ wordsFrom .bare (some (c :: w.reverse)) ds := by
  obtain ⟨ws, opened, hOpened, hEq⟩ := exists_wordsFrom_append .bare none cs (absurd rfl)
  obtain ⟨w, rfl⟩ := Option.isSome_iff_exists.mp (hOpened (by rw [hEnd]; exact nofun))
  refine ⟨ws, w.reverse, ?_, fun c ds => ?_⟩
  · have hHere := hEq []
    rw [List.append_nil, hEnd] at hHere
    refine hHere.trans ?_
    rw [wordsFrom, ← List.reverse_cons]
    rfl
  · rw [words, hEq, hEnd, List.reverse_reverse]
    rfl

/-- What is glued to an escaped blank begins no word of its own. -/
theorem length_wordsFrom_glued (hFirst : ∀ c, ds.head? = some c → Text.isBlank c = false) (hSome : ds ≠ [])
    (w : List Char) : (wordsFrom .bare (some w) ds).length = (words ds).length := by
  obtain ⟨c, ds, rfl⟩ := List.exists_cons_of_ne_nil hSome
  have hSeparates := separates_of_not_blank .bare (hFirst c rfl)
  rw [words, wordsFrom_cons hSeparates, wordsFrom_cons hSeparates]
  exact length_wordsFrom_some _ _ _ _

theorem words_ne_nil (hFirst : ∀ c, ds.head? = some c → Text.isBlank c = false) (hSome : ds ≠ []) :
    words ds ≠ [] := by
  obtain ⟨c, ds, rfl⟩ := List.exists_cons_of_ne_nil hSome
  rw [words, wordsFrom_cons (separates_of_not_blank .bare (hFirst c rfl))]
  exact wordsFrom_some_ne_nil _ _ _

/-- Whether the blanks at the end of a text begin with one that is escaped. -/
def endsEscaped (cs : List Char) : Bool := Quote.run .bare (Text.trimRight cs) == .bareEscape && Text.trimRight cs != cs

theorem eq_of_not_isOpen (h : q.isOpen = false) : q = .bare ∨ q = .bareEscape := by
  cases q with
  | bare => exact .inl rfl
  | bareEscape => exact .inr rfl
  | single | double | doubleEscape => cases h

theorem words_trimRight (hOpen : (Quote.run .bare cs).isOpen = false) (h : endsEscaped cs = false) :
    words (Text.trimRight cs) = words cs := by
  obtain ⟨blanks, hBlanks, hEq⟩ := exists_of_trimRight cs
  rw [← isOpen_run_trimRight] at hOpen
  rcases eq_of_not_isOpen hOpen with hBare | hEscape
  · calc words (Text.trimRight cs)
      _ = words (Text.trimRight cs ++ blanks) := (words_append_blanks hBare hBlanks).symm
      _ = words cs := by rw [← hEq]
  · have hSame : Text.trimRight cs = cs := by simpa [endsEscaped, hEscape] using h
    rw [hSame]

/-- Trimming puts the backslash before the last word's final blank in the place of this blank. -/
theorem exists_words_trimRight (h : endsEscaped cs = true) :
    ∃ ws w b, Text.isBlank b = true ∧ words cs = ws ++ [w ++ [b]] ∧
      words (Text.trimRight cs) = ws ++ [w ++ ['\x5c']] := by
  obtain ⟨blanks, hBlanks, hEq⟩ := exists_of_trimRight cs
  obtain ⟨hEscape, hMore⟩ : Quote.run .bare (Text.trimRight cs) = .bareEscape ∧ Text.trimRight cs ≠ cs := by
    simpa [endsEscaped] using h
  obtain ⟨ws, w, hHere, hNext⟩ := exists_words_of_escape hEscape
  cases blanks with
  | nil => exact absurd (by rw [List.append_nil] at hEq; exact hEq.symm) hMore
  | cons b blanks =>
    rw [List.all_cons, Bool.and_eq_true] at hBlanks
    -- `b` is the blank that is escaped; those behind it are outside of the word
    refine ⟨ws, w, b, hBlanks.1, ?_, hHere⟩
    calc words cs
      _ = words (Text.trimRight cs ++ b :: blanks) := by rw [← hEq]
      _ = ws ++ [w ++ [b]] := by simp [hNext, wordsFrom_blanks hBlanks.2]

theorem length_words_trimRight (hOpen : (Quote.run .bare cs).isOpen = false) :
    (words (Text.trimRight cs)).length = (words cs).length := by
  cases hEscaped : endsEscaped cs with
  | false => rw [words_trimRight hOpen hEscaped]
  | true =>
    obtain ⟨ws, w, b, -, hWords, hTrimmed⟩ := exists_words_trimRight hEscaped
    rw [hWords, hTrimmed, List.length_append, List.length_append]
    rfl

theorem trimRight_append (hSome : Text.trimRight ds ≠ []) (cs : List Char) :
    Text.trimRight (cs ++ ds) = cs ++ Text.trimRight ds := by
  rw [Text.trimRight, ne_eq, List.reverse_eq_nil_iff] at hSome
  rw [Text.trimRight, Text.trimRight, List.reverse_append, List.dropWhile_append, if_neg (by simpa using hSome),
    List.reverse_append, List.reverse_reverse]

theorem trimRight_blanks (h : blanks.all Text.isBlank = true) : Text.trimRight blanks = [] := by
  have hDrop : (blanks.reverse ++ []).dropWhile Text.isBlank = [] :=
    dropWhile_append_of_all (by rwa [List.all_reverse]) nofun
  rw [List.append_nil] at hDrop
  rw [Text.trimRight, hDrop, List.reverse_nil]

theorem endsEscaped_blanks_append (h : blanks.all Text.isBlank = true) (cs : List Char) :
    endsEscaped (blanks ++ cs) = endsEscaped cs := by
  by_cases hSome : Text.trimRight cs = []
  · obtain ⟨blanks', hBlanks, hEq⟩ := exists_of_trimRight cs
    rw [hSome, List.nil_append] at hEq
    have hAll : (blanks ++ cs).all Text.isBlank = true := by rw [List.all_append, h, hEq, hBlanks, Bool.and_self]
    rw [endsEscaped, endsEscaped, trimRight_blanks hAll, hSome]
    rfl
  · rw [endsEscaped, endsEscaped, trimRight_append hSome, Quote.run_append, run_blanks h, Bool.eq_iff_iff]
    simp

theorem endsEscaped_trimLeft (cs : List Char) : endsEscaped (Text.trimLeft cs) = endsEscaped cs := by
  have hLeft := endsEscaped_blanks_append (List.all_takeWhile (p := Text.isBlank) (l := cs)) (Text.trimLeft cs)
  rwa [Text.trimLeft, List.takeWhile_append_dropWhile, eq_comm] at hLeft

theorem isOpen_run_trimLeft (cs : List Char) :
    (Quote.run .bare (Text.trimLeft cs)).isOpen = (Quote.run .bare cs).isOpen := by
  have hTrim := isOpen_run_trim cs
  rwa [Text.trim, isOpen_run_trimRight] at hTrim

theorem words_trim (hBalanced : isBalanced cs = true) (h : endsEscaped cs = false) : words (Text.trim cs) = words cs := by
  rw [isBalanced_iff, ← isOpen_run_trimLeft] at hBalanced
  rw [Text.trim, words_trimRight hBalanced (by rw [endsEscaped_trimLeft, h]), words_trimLeft]

theorem length_words_trim (hOpen : (Quote.run .bare cs).isOpen = false) :
    (words (Text.trim cs)).length = (words cs).length := by
  rw [← isOpen_run_trimLeft] at hOpen
  rw [Text.trim, length_words_trimRight hOpen, words_trimLeft]

theorem exists_words_trim (h : endsEscaped cs = true) :
    ∃ ws w b, Text.isBlank b = true ∧ words cs = ws ++ [w ++ [b]] ∧ words (Text.trim cs) = ws ++ [w ++ ['\x5c']] := by
  rw [← endsEscaped_trimLeft] at h
  obtain ⟨ws, w, b, hBlank, hWords, hTrimmed⟩ := exists_words_trimRight h
  exact ⟨ws, w, b, hBlank, (words_trimLeft cs).symm.trans hWords, hTrimmed⟩

theorem splitLine_of_not_mem (hBalanced : isBalanced cs = true) (h : '>' ∉ bare cs) : splitLine cs = .ok (cs, none) := by
  rw [splitLine, hBalanced, extractRedirect, lastOperator_eq_none_iff.mpr h]
  rfl

theorem exists_readStage? {text : String} (h : tokenize text ≠ []) :
    ∃ stage, readStage? text = some stage ∧ stage.raw = text ∧ (tokenize text).head? = some stage.name := by
  obtain ⟨name, rest, hTokens⟩ := List.exists_cons_of_ne_nil h
  refine ⟨⟨name, (sortWords [] [] rest).1, (sortWords [] [] rest).2, text⟩, ?_, rfl, congrArg List.head? hTokens⟩
  rw [readStage?, hTokens]

theorem raw_of_readStage? {text : String} {stage : Stage} (h : readStage? text = some stage) : stage.raw = text := by
  rw [readStage?] at h
  split at h
  · cases h
  · cases h
    rfl

/-- A line that is not faulty is what remains of it without its redirects: a pipeline, a command or nothing. -/
theorem exists_of_readLine {line : String} {parsed : ParsedLine} (h : readLine line cs = .ok parsed) :
    ∃ command redirect, splitLine cs = .ok (command, redirect) ∧
      ((splitPipes command).length ≠ 1 ∧ (∃ stages, readStages (splitPipes command) = .ok stages ∧
          parsed = .pipeline stages (String.ofList cs) redirect) ∨
        (splitPipes command).length = 1 ∧ (∃ stage, readStage? (String.ofList command) = some stage ∧
          parsed = .command stage redirect) ∨
        parsed = .empty line) := by
  obtain ⟨⟨command, redirect⟩, hSplit, hRead⟩ := Result.exists_of_bind_ok h
  refine ⟨command, redirect, hSplit, ?_⟩
  dsimp only at hRead
  split at hRead
  · rename_i first second rest hParts
    obtain ⟨stages, hStages, hRead⟩ := Result.exists_of_bind_ok hRead
    cases hRead
    rw [hParts]
    exact .inl ⟨by simp, stages, hStages, rfl⟩
  · rename_i hNotMany
    split at hRead
    · rename_i stage hStage
      cases hRead
      refine .inr (.inl ⟨?_, stage, hStage, rfl⟩)
      obtain ⟨first, rest, hParts⟩ := List.exists_cons_of_ne_nil (splitPipesFrom_ne_nil .bare [] command)
      cases rest with
      | nil => exact congrArg List.length hParts
      | cons second rest => exact absurd hParts (hNotMany first second rest)
    · cases hRead
      exact .inr (.inr rfl)

theorem readLine_of_not_mem {stage : Stage} (hBalanced : isBalanced cs = true) (hPipe : '|' ∉ bare cs)
    (hOperator : '>' ∉ bare cs) (hStage : readStage? (String.ofList cs) = some stage) (line : String) :
    readLine line cs = .ok (.command stage none) := by
  rw [readLine, splitLine_of_not_mem hBalanced hOperator, Result.ok_bind]
  dsimp only
  rw [splitPipes_eq_of_not_mem hPipe]
  dsimp only
  rw [hStage]
  rfl

/-- A line without pipes and redirects is a command that is read from the trimmed line. Its words are those of
the line, unless the line ends in an escaped blank: there the last word ends in the backslash instead. -/
theorem parse_words {line : String} (hBalanced : isBalanced line.toList = true) (hPipe : '|' ∉ bare line.toList)
    (hOperator : '>' ∉ bare line.toList) (hWords : tokenize line ≠ []) :
    ∃ stage, parse line = .command stage none ∧ stage.raw = trimText line ∧
      (tokenize stage.raw).head? = some stage.name ∧
      (endsEscaped line.toList = false → tokenize stage.raw = tokenize line) ∧
      (endsEscaped line.toList = true → ∃ ws w b, Text.isBlank b = true ∧
        tokenize line = ws ++ [w ++ String.singleton b] ∧ tokenize stage.raw = ws ++ [w ++ "\\"]) := by
  generalize hTrim : Text.trim line.toList = cs
  have hRaw : tokenize (trimText line) = (words cs).map String.ofList := by
    rw [tokenize, trimText, String.toList_ofList, hTrim]
  have hSame : endsEscaped line.toList = false → tokenize (trimText line) = tokenize line := by
    intro hEscaped
    rw [hRaw, ← hTrim, words_trim hBalanced hEscaped, tokenize]
  have hEscape : endsEscaped line.toList = true → ∃ ws w b, Text.isBlank b = true ∧
      tokenize line = ws ++ [w ++ String.singleton b] ∧ tokenize (trimText line) = ws ++ [w ++ "\\"] := by
    intro hEscaped
    obtain ⟨ws, w, b, hBlank, hHere, hTrimmed⟩ := exists_words_trim hEscaped
    refine ⟨ws.map String.ofList, String.ofList w, b, hBlank, ?_, ?_⟩
    · rw [tokenize, hHere, List.map_append, List.map_singleton, String.ofList_append, String.singleton_eq_ofList]
    · rw [hRaw, ← hTrim, hTrimmed, List.map_append, List.map_singleton, String.ofList_append]
  have hSome : tokenize (trimText line) ≠ [] := by
    cases hEscaped : endsEscaped line.toList with
    | false => rwa [hSame hEscaped]
    | true =>
      obtain ⟨ws, w, b, -, -, hTrimmed⟩ := hEscape hEscaped
      simp [hTrimmed]
  obtain ⟨stage, hStage, hText, hName⟩ := exists_readStage? hSome
  rw [← hText] at hName hSame hEscape
  refine ⟨stage, parse_eq_of_trim hTrim ?_ ?_, hText, hName, hSame, hEscape⟩
  · rw [← hTrim]
    refine framed_trim ?_
    rintro hNil
    rw [trimText, hNil] at hSome
    exact hSome rfl
  · rw [trimText, hTrim] at hStage
    rw [← isBalanced_trim, hTrim] at hBalanced
    rw [← not_mem_bare_trim isBlank_pipe, hTrim] at hPipe
    rw [← not_mem_bare_trim isBlank_operator, hTrim] at hOperator
    exact readLine_of_not_mem hBalanced hPipe hOperator hStage line

/-- A tab is escaped at the end of the line, and there are blanks around it. -/
theorem parse_words_escaped :
    let line := "  cat 'it is' my\\\t "
    isBalanced line.toList = true ∧ '|' ∉ bare line.toList ∧ '>' ∉ bare line.toList ∧
      tokenize line = ["cat", "it is", "my\t"] ∧ endsEscaped line.toList = true ∧
      ∃ stage, parse line = .command stage none ∧ stage.raw = trimText line ∧
        (tokenize stage.raw).head? = some stage.name ∧
        (endsEscaped line.toList = false → tokenize stage.raw = tokenize line) ∧
        (endsEscaped line.toList = true → ∃ ws w b, Text.isBlank b = true ∧
          tokenize line = ws ++ [w ++ String.singleton b] ∧ tokenize stage.raw = ws ++ [w ++ "\\"]) := by
  have hTokens : tokenize "  cat 'it is' my\\\t " = ["cat", "it is", "my\t"] := by decide +kernel
  exact ⟨by decide +kernel, by decide +kernel, by decide +kernel, hTokens, by decide +kernel,
    parse_words (by decide +kernel) (by decide +kernel) (by decide +kernel) (by rw [hTokens]; exact List.cons_ne_nil _ _)⟩

/-- Trimming does change a word: the escaped blank at the end of this line is not read back. -/
theorem not_words_of_trimmed : ¬∀ line : String, isBalanced line.toList = true → '|' ∉ bare line.toList →
    '>' ∉ bare line.toList → tokenize line ≠ [] → ∃ stage redirect, parse line = .command stage redirect ∧
      (tokenize line).head? = some stage.name ∧ tokenize stage.raw = tokenize line := by
  intro h
  have hParse : parse "cat my\\ " = .command ⟨"cat", ["my\\"], [], "cat my\\"⟩ none := by decide +kernel
  obtain ⟨stage, redirect, hStage, -, hWords⟩ :=
    h "cat my\\ " (by decide +kernel) (by decide +kernel) (by decide +kernel) (by decide +kernel)
  rw [hParse] at hStage
  cases hStage
  exact absurd hWords (by decide +kernel)

end VirtualShell.Line
