import VirtualShell.Proofs.Line.Operators

/-!
# Pipes between stages

The redirects are taken out of a line before its pipes are looked for, and each takes a word that may have pipes
in it. `count_pipes` says that every other pipe of the line stands between two stages, and that no stage has one.
-/
namespace VirtualShell.Line
set_option autoImplicit false

def ParsedLine.redirect? : ParsedLine → Option Redirect
  | .empty _ | .error .. => none
  | .command _ redirect => redirect
  | .pipeline _ _ redirect => redirect

def pipeCount (cs : List Char) : Nat := (bare cs).count '|'

/-- What stands behind the first of some operators when the redirects behind it are taken out. The texts are the
sections behind these operators. -/
def behind : List (List Char) → List Char
  | [] => []
  | [s] => s
  | s :: next :: rest => glue s (afterWord (behind (next :: rest)))

/-- The words that redirects take, with their quotes. -/
def taken : List (List Char) → List (List Char)
  | [] => []
  | s :: rest => wordText (behind (s :: rest)) :: taken rest

variable {cs ds s last leftover : List Char} {xs ys : List (List Char)}

theorem behind_cons (h : xs ≠ []) (s : List Char) : behind (s :: xs) = glue s (afterWord (behind xs)) := by
  obtain ⟨next, rest, rfl⟩ := List.exists_cons_of_ne_nil h
  rfl

/-- The redirects before the last take what they take without it. -/
theorem behind_append (xs : List (List Char)) (s last : List Char) :
    behind (xs ++ [s, last]) = behind (xs ++ [glue s (afterWord last)]) := by
  induction xs with
  | nil => rfl
  | cons x xs ih =>
    rw [List.cons_append, List.cons_append, behind_cons (by simp), behind_cons (by simp), ih]

theorem taken_append (xs : List (List Char)) (s last : List Char) :
    taken (xs ++ [s, last]) = taken (xs ++ [glue s (afterWord last)]) ++ [wordText last] := by
  induction xs with
  | nil => rfl
  | cons x xs ih =>
    have hBehind := behind_append (x :: xs) s last
    rw [List.cons_append, List.cons_append] at hBehind ⊢
    rw [taken, taken, hBehind, ih, List.cons_append]

theorem getLast?_taken (xs : List (List Char)) : (taken xs).getLast? = xs.getLast?.map wordText := by
  induction xs with
  | nil => rfl
  | cons s rest ih =>
    cases rest with
    | nil => rfl
    | cons next rest =>
      rw [taken, List.getLast?_cons_cons, ← ih, taken, List.getLast?_cons_cons]

theorem pipeCount_dropRedirects {fuel : Nat} {command : List Char} (hFuel : operatorCount cs ≤ fuel)
    (h : dropRedirects fuel cs = .ok command) :
    pipeCount cs = pipeCount command + ((taken (sections cs).tail).flatMap bare).count '|' := by
  refine dropRedirects_keeps (P := fun cs result => ∀ command, result = .ok command →
    pipeCount cs = pipeCount command + ((taken (sections cs).tail).flatMap bare).count '|') ?_ ?_ ?_ hFuel command h
  · rintro cs hNone command ⟨⟩
    rw [sections, sectionsFrom_eq_of_not_mem hNone]
    rfl
  · intro cs init before last _ _ command h
    cases h
  · intro cs init before last r result hSections _ _ _ hTaken hLeft command hCommand
    have hWord : pipeCount cs = pipeCount r.command + pipeCount (wordText last) :=
      hTaken.count '|' isBlank_pipe (by decide)
    have hSum : ((taken (sections cs).tail).flatMap bare).count '|' =
        ((taken (sections r.command).tail).flatMap bare).count '|' + pipeCount (wordText last) := by
      rw [hTaken.tail_sections, hSections]
      cases init with
      -- the operator was the only one
      | nil => simp [taken, behind, pipeCount]
      | cons first init => simp [taken_append, pipeCount]
    rw [hWord, hLeft command hCommand, hSum]
    omega

/-- A word stands behind the last operator of a text out of which the redirects can be taken. -/
theorem words_of_dropRedirects {fuel : Nat} {command : List Char} (hFuel : operatorCount cs ≤ fuel)
    (h : dropRedirects fuel cs = .ok command) (hLast : (sections cs).tail.getLast? = some last) : words last ≠ [] := by
  refine dropRedirects_keeps (P := fun cs result => ∀ command, result = .ok command →
    ∀ last, (sections cs).tail.getLast? = some last → words last ≠ []) ?_ ?_ ?_ hFuel command h last hLast
  · intro cs hNone command _ last hLast
    rw [sections, sectionsFrom_eq_of_not_mem hNone] at hLast
    cases hLast
  · intro cs init before last _ _ command h
    cases h
  · intro cs init before last' r result hSections _ _ hWords _ _ command _ last hLast
    rw [getLast?_tail_sections hSections] at hLast
    cases hLast
    exact hWords

/-- The pipes that are not left are in the words that were taken, and the last of these is that of the redirect. -/
theorem redirect_of_splitLine {command : List Char} {redirect : Option Redirect}
    (h : splitLine cs = .ok (command, redirect)) :
    pipeCount cs = pipeCount command + ((taken (sections cs).tail).flatMap bare).count '|' ∧
      (redirect.map fun r => [r.target.toList]) = (taken (sections cs).tail).getLast?.map words := by
  obtain ⟨fuel, found, hFuel, hSplit, hTarget⟩ := exists_splitLine_eq (isBalanced_of_splitLine h)
  rw [hSplit] at h
  obtain ⟨command, hDrop, hPair⟩ := Result.exists_of_map_ok h
  cases hPair
  refine ⟨pipeCount_dropRedirects hFuel hDrop, ?_⟩
  rw [getLast?_taken, Option.map_map]
  cases hLast : (sections cs).tail.getLast? with
  | none =>
    rw [hLast] at hTarget
    rw [Option.map_eq_none_iff.mp hTarget]
    rfl
  | some last =>
    obtain ⟨target, rest, hWords⟩ := List.exists_cons_of_ne_nil (words_of_dropRedirects hFuel hDrop hLast)
    rw [hLast, Option.bind_some, hWords, List.head?_cons, Option.map_eq_some_iff] at hTarget
    obtain ⟨r, rfl, rfl⟩ := hTarget
    rw [Option.map_some, Option.map_some, Function.comp_apply, words_wordText, hWords]
    rfl

/-- A word ends at a blank at the latest. -/
theorem wordTextFrom_append_separator {q : Quote} {b : Char} (hEnd : q.run cs = .bare) (hb : Text.isBlank b = true)
    (ds : List Char) : wordTextFrom q (cs ++ b :: ds) = wordTextFrom q cs := by
  induction cs generalizing q with
  | nil =>
    obtain rfl : q = .bare := hEnd
    exact if_pos hb
  | cons c cs ih => rw [List.cons_append, wordTextFrom, wordTextFrom, ih hEnd]

theorem wordText_append_separator {b : Char} (hEnd : Quote.run .bare cs = .bare) (hWords : words cs ≠ [])
    (hb : Text.isBlank b = true) (ds : List Char) : wordText (cs ++ b :: ds) = wordText cs := by
  have hSome : Text.trimLeft cs ≠ [] := by
    intro hNil
    rw [← words_trimLeft, hNil] at hWords
    exact hWords rfl
  have hLeft : Text.trimLeft (cs ++ b :: ds) = Text.trimLeft cs ++ b :: ds := by
    rw [Text.trimLeft, List.dropWhile_append, if_neg (by simpa [Text.trimLeft] using hSome)]
    rfl
  have hRun : Quote.run .bare (Text.trimLeft cs) = .bare := by
    rw [← List.takeWhile_append_dropWhile (p := Text.isBlank) (l := cs), Quote.run_append,
      run_blanks List.all_takeWhile] at hEnd
    exact hEnd
  rw [wordText, hLeft, wordTextFrom_append_separator hRun hb, wordText]

theorem wordText_trimRight (hEnd : Quote.run .bare (Text.trimRight cs) = .bare) (hWords : words (Text.trimRight cs) ≠ []) :
    wordText (Text.trimRight cs) = wordText cs := by
  obtain ⟨blanks, hBlanks, hCs⟩ := exists_of_trimRight cs
  cases blanks with
  | nil =>
    rw [List.append_nil] at hCs
    rw [← hCs]
  | cons b blanks =>
    rw [List.all_cons, Bool.and_eq_true] at hBlanks
    calc wordText (Text.trimRight cs)
      _ = wordText (Text.trimRight cs ++ b :: blanks) := (wordText_append_separator hEnd hWords hBlanks.1 blanks).symm
      _ = wordText cs := by rw [← hCs]

/-- What is glued to a section behind its first word does not change this word. -/
theorem wordText_glue (h : Quote.run .bare s = .bare) (hWords : words s ≠ []) (hEscaped : endsEscaped s = false)
    (leftover : List Char) : wordText (glue s leftover) = wordText s := by
  have hEnd : Quote.run .bare (Text.trimRight s) = .bare := by
    refine (run_trimRight h).resolve_right fun hEscape => ?_
    rw [(endsEscaped_iff h).mpr hEscape] at hEscaped
    cases hEscaped
  have hTrimmed : words (Text.trimRight s) ≠ [] := by
    rwa [words_trimRight (by rw [h]; rfl) hEscaped]
  rw [← wordText_trimRight hEnd hTrimmed]
  by_cases hNil : leftover = []
  · rw [hNil, glue_nil]
  · rw [glue_of_ne_nil hNil, wordText_append_separator hEnd hTrimmed (by decide)]

theorem run_of_mem_dropLast_cons (h : xs ≠ [] → Quote.run .bare s = .bare)
    (hRest : ∀ t ∈ xs.dropLast, Quote.run .bare t = .bare) : ∀ t ∈ (s :: xs).dropLast, Quote.run .bare t = .bare := by
  cases xs with
  | nil => exact List.forall_mem_nil _
  | cons next rest =>
    rw [List.dropLast_cons_cons]
    exact List.forall_mem_cons.mpr ⟨h (List.cons_ne_nil _ _), hRest⟩

/-- Before an operator a text is outside of quotes. -/
theorem exists_sectionsFrom_eq (q : Quote) (cs : List Char) : ∃ s rest, sectionsFrom q cs = s :: rest ∧
    (rest ≠ [] → q.run s = .bare) ∧ ∀ t ∈ rest.dropLast, Quote.run .bare t = .bare := by
  fun_induction sectionsFrom q cs with
  | case1 q => exact ⟨[], [], rfl, absurd rfl, List.forall_mem_nil _⟩
  | case2 q c hOperator rest ih =>
    obtain ⟨rfl, -⟩ := eq_of_isOperator hOperator
    obtain ⟨s, rest, hSections, hRun, hRest⟩ := ih
    exact ⟨[], s :: rest, congrArg ([] :: ·) hSections, fun _ => rfl, run_of_mem_dropLast_cons hRun hRest⟩
  | case3 q c hOperator cs hSingle ih =>
    obtain ⟨rfl, -⟩ := eq_of_isOperator hOperator
    obtain ⟨s, rest, hSections, hRun, hRest⟩ := ih
    exact ⟨[], s :: rest, congrArg ([] :: ·) hSections, fun _ => rfl, run_of_mem_dropLast_cons hRun hRest⟩
  | case4 q c cs hOther ih =>
    obtain ⟨s, rest, hSections, hRun, hRest⟩ := ih
    exact ⟨c :: s, rest, congrArg (List.modifyHead (c :: ·)) hSections, hRun, hRest⟩

theorem run_of_mem_dropLast (h : s ∈ (sections cs).tail.dropLast) : Quote.run .bare s = .bare := by
  obtain ⟨first, rest, hSections, -, hRest⟩ := exists_sectionsFrom_eq .bare cs
  rw [sections, hSections] at h
  exact hRest s h

theorem taken_eq_map (hRun : ∀ s ∈ xs.dropLast, Quote.run .bare s = .bare)
    (hPlain : ∀ s ∈ xs, words s ≠ [] ∧ endsEscaped s = false) : taken xs = xs.map wordText := by
  induction xs with
  | nil => rfl
  | cons s rest ih =>
    obtain ⟨⟨hWords, hEscaped⟩, hRest⟩ := List.forall_mem_cons.mp hPlain
    cases rest with
    | nil => rfl
    | cons next rest =>
      rw [List.dropLast_cons_cons] at hRun
      obtain ⟨hHere, hThere⟩ := List.forall_mem_cons.mp hRun
      rw [taken, ih hThere hRest, behind, wordText_glue hHere hWords hEscaped]
      rfl

theorem readPart_eq_ok {part : List Char} {stage : Stage} (h : readPart part = .ok stage) :
    readStage? stage.raw = some stage ∧ stage.raw = String.ofList (Text.trim part) := by
  rw [readPart] at h
  split at h
  · rename_i found hFound
    cases h
    have hRaw := raw_of_readStage? hFound
    rw [hRaw]
    exact ⟨hFound, rfl⟩
  · cases h

theorem map_raw_readStages {parts : List (List Char)} {stages : List Stage} (h : readStages parts = .ok stages) :
    stages.map Stage.raw = parts.map fun part => String.ofList (Text.trim part) := by
  induction parts generalizing stages with
  | nil =>
    cases h
    rfl
  | cons part parts ih =>
    rw [readStages, List.mapM_cons] at h
    obtain ⟨stage, hStage, h⟩ := Result.exists_of_bind_ok h
    obtain ⟨rest, hRest, h⟩ := Result.exists_of_bind_ok h
    cases h
    rw [List.map_cons, List.map_cons, ih hRest, (readPart_eq_ok hStage).2]

theorem readStage?_of_readStages {parts : List (List Char)} {stages : List Stage} (h : readStages parts = .ok stages) :
    ∀ stage ∈ stages, readStage? stage.raw = some stage :=
  (Result.mapM_ok (fun _ _ hStage => (readPart_eq_ok hStage).1) h).2

/-- The stages of a line are the parts of what is left of it without its redirects. -/
theorem stages_of_readLine {line : String} {parsed : ParsedLine} (h : readLine line cs = .ok parsed)
    (hStages : parsed.stages ≠ []) : ∃ command, splitLine cs = .ok (command, parsed.redirect?) ∧
      parsed.stages.length = pipeCount command + 1 ∧
      ∀ stage ∈ parsed.stages, readStage? stage.raw = some stage ∧ '|' ∉ bare stage.raw.toList := by
  obtain ⟨command, redirect, hSplit, hParsed⟩ := exists_of_readLine h
  have hLength : (splitPipes command).length = pipeCount command + 1 := length_splitPipesFrom .bare [] command
  refine ⟨command, ?_⟩
  rcases hParsed with ⟨-, stages, hRead, rfl⟩ | ⟨hOne, stage, hStage, rfl⟩ | rfl
  · have hRaw := map_raw_readStages hRead
    refine ⟨hSplit, ?_, fun stage hMem => ?_⟩
    · have hSame := congrArg List.length hRaw
      rw [List.length_map, List.length_map, hLength] at hSame
      exact hSame
    · obtain ⟨part, hPart, hText⟩ := List.mem_map.mp (hRaw ▸ List.mem_map_of_mem hMem)
      obtain ⟨-, hPipe⟩ := part_of_mem_splitPipes (splitLine_eq_ok hSplit).1 hPart
      refine ⟨readStage?_of_readStages hRead stage hMem, ?_⟩
      rw [← hText, String.toList_ofList]
      exact (not_mem_bare_trim isBlank_pipe).mpr hPipe
  · rw [hLength] at hOne
    refine ⟨hSplit, hOne.symm, ?_⟩
    rintro _ (_ | ⟨_, ⟨⟩⟩)
    rw [raw_of_readStage? hStage, String.toList_ofList, ← List.count_eq_zero]
    exact ⟨hStage, Nat.succ.inj hOne⟩
  · exact absurd rfl hStages

theorem exists_of_stages {line : String} (h : (parse line).stages ≠ []) :
    readLine line (Text.trim line.toList) = .ok (parse line) := by
  unfold parse at h ⊢
  split at h
  · exact absurd rfl h
  · split at h
    · assumption
    · exact absurd rfl h

/-- Every pipe of a command or a pipeline stands between two of its stages, unless a redirect takes it with its word.
The stages are read from texts without pipes, and the redirect of the line has the last of the words that are taken. If
each operator has a word behind it that has no pipe, and no escaped blank stands before the next operator, then no pipe
is taken. -/
theorem count_pipes {line : String} (h : (parse line).stages ≠ []) :
    let behindOperators := (sections (Text.trim line.toList)).tail
    (∀ stage ∈ (parse line).stages, readStage? stage.raw = some stage ∧ '|' ∉ bare stage.raw.toList) ∧
    pipeCount line.toList + 1 = (parse line).stages.length + ((taken behindOperators).flatMap bare).count '|' ∧
    ((parse line).redirect?.map fun r => [r.target.toList]) = (taken behindOperators).getLast?.map words ∧
    ((∀ s ∈ behindOperators, words s ≠ [] ∧ endsEscaped s = false ∧ '|' ∉ bare (wordText s)) →
      (parse line).stages.length = pipeCount line.toList + 1 ∧ ∀ t ∈ taken behindOperators, '|' ∉ bare t) := by
  intro behindOperators
  obtain ⟨command, hSplit, hLength, hStages⟩ := stages_of_readLine (exists_of_stages h) h
  obtain ⟨hCount, hRedirect⟩ := redirect_of_splitLine hSplit
  have hTrim : pipeCount (Text.trim line.toList) = pipeCount line.toList := count_bare_trim isBlank_pipe _
  have hSum : pipeCount line.toList + 1 =
      (parse line).stages.length + ((taken behindOperators).flatMap bare).count '|' := by
    rw [← hTrim, hCount, hLength]
    exact Nat.add_right_comm _ _ _
  refine ⟨hStages, hSum, hRedirect, fun hPlain => ?_⟩
  have hTaken : taken behindOperators = behindOperators.map wordText :=
    taken_eq_map (fun s hs => run_of_mem_dropLast hs) fun s hs => ⟨(hPlain s hs).1, (hPlain s hs).2.1⟩
  have hNone : ∀ t ∈ taken behindOperators, '|' ∉ bare t := by
    rw [hTaken]
    exact List.forall_mem_map.mpr fun s hs => (hPlain s hs).2.2
  refine ⟨?_, hNone⟩
  have hNotMem : '|' ∉ (taken behindOperators).flatMap bare := by
    intro hMem
    obtain ⟨t, ht, hPipe⟩ := List.mem_flatMap.mp hMem
    exact hNone t ht hPipe
  rw [hSum, List.count_eq_zero.mpr hNotMem, Nat.add_zero]

/-- In the first line a redirect takes a pipe, another a quoted one. In the second line the pipe is escaped. -/
theorem count_pipes_taken :
    let line := "cat a|b >'x|y' >> f|g h | wc "
    let plain := "cat a|b >'x|y' >> f\\|g h | wc "
    (parse line).stages ≠ [] ∧ pipeCount line.toList = 3 ∧
      taken (sections (Text.trim line.toList)).tail = ["'x|y'".toList, "f|g".toList] ∧
      pipeCount line.toList + 1 = (parse line).stages.length + 1 ∧
    (parse plain).stages ≠ [] ∧
      (∀ s ∈ (sections (Text.trim plain.toList)).tail,
        words s ≠ [] ∧ endsEscaped s = false ∧ '|' ∉ bare (wordText s)) ∧
      (parse plain).stages.length = pipeCount plain.toList + 1 := by
  have hLine : (parse "cat a|b >'x|y' >> f|g h | wc ").stages ≠ [] := by decide +kernel
  have hTaken : taken (sections (Text.trim "cat a|b >'x|y' >> f|g h | wc ".toList)).tail =
      ["'x|y'".toList, "f|g".toList] := by decide +kernel
  have hPlain : (parse "cat a|b >'x|y' >> f\\|g h | wc ").stages ≠ [] := by decide +kernel
  have hSections : ∀ s ∈ (sections (Text.trim "cat a|b >'x|y' >> f\\|g h | wc ".toList)).tail,
      words s ≠ [] ∧ endsEscaped s = false ∧ '|' ∉ bare (wordText s) := by decide +kernel
  have hOne : (["'x|y'".toList, "f|g".toList].flatMap bare).count '|' = 1 := by decide +kernel
  obtain ⟨-, hSum, -, -⟩ := count_pipes hLine
  obtain ⟨-, -, -, hNone⟩ := count_pipes hPlain
  rw [hTaken, hOne] at hSum
  exact ⟨hLine, by decide +kernel, hTaken, hSum, hPlain, hSections, (hNone hSections).1⟩

/-- Not every pipe stands between two stages: here the redirect takes it with its word. -/
theorem not_boundary_of_taken : ¬∀ line : String, (parse line).stages ≠ [] →
    (parse line).stages.length = pipeCount line.toList + 1 ∧
      ∀ r, (parse line).redirect? = some r → '|' ∉ bare r.target.toList := by
  intro h
  have hParse : parse "ls >f|wc" = .command ⟨"ls", [], [], "ls"⟩ (some ⟨false, "f|wc"⟩) := by decide +kernel
  obtain ⟨hLength, -⟩ := h "ls >f|wc" (by decide +kernel)
  rw [hParse] at hLength
  exact absurd hLength (by decide +kernel)

end VirtualShell.Line
