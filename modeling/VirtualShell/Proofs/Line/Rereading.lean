import Mathlib.Logic.Function.Iterate
import VirtualShell.Proofs.Line.Boundaries

/-!
# Texts of stages

A stage keeps the text that it was read from, and some commands read it again: for its words as they were typed,
or for the command that they elevate. Such a text is trimmed and balanced and has no pipe and no redirect outside
of quotes, and the same holds of what stands behind its first word. So it reads as the same stage again, and the
words of a stage that is elevated are those behind the first: `parse_raw`.
-/
namespace VirtualShell.Line
set_option autoImplicit false

variable {q : Quote} {c : Char} {cs ds : List Char} {stage inner : Stage}

/-- A text that is a command as it stands. -/
structure Plain (cs : List Char) : Prop where
  trimmed : Text.trim cs = cs
  balanced : isBalanced cs = true
  pipe : '|' ∉ bare cs
  operator : '>' ∉ bare cs

theorem trim_trim (cs : List Char) : Text.trim (Text.trim cs) = Text.trim cs := by
  by_cases hNil : Text.trim cs = []
  · rw [hNil]
    rfl
  · exact (framed_trim hNil).trim_eq

theorem isBlank_getLast?_trim (h : (Text.trim cs).getLast? = some c) : Text.isBlank c = false :=
  isBlank_getLast?_trimRight h

theorem tokenize_ne_nil_of_readStage? {text : String} (h : readStage? text = some stage) : tokenize text ≠ [] := by
  intro hNil
  rw [readStage?, hNil] at h
  cases h

theorem Plain.parse_eq (h : Plain stage.raw.toList) (hStage : readStage? stage.raw = some stage) :
    parse stage.raw = .command stage none := by
  have hSome : Text.trim stage.raw.toList ≠ [] := by
    intro hNil
    rw [h.trimmed] at hNil
    apply tokenize_ne_nil_of_readStage? hStage
    rw [tokenize, hNil]
    rfl
  have hFramed := framed_trim hSome
  rw [h.trimmed] at hFramed
  refine parse_eq_of_trim h.trimmed hFramed (readLine_of_not_mem h.balanced h.pipe h.operator ?_ _)
  rwa [String.ofList_toList]

theorem trim_of_extractRedirect {r : Redirected} (h : extractRedirect cs = .ok (some r)) :
    Text.trim r.command = r.command := by
  unfold extractRedirect at h
  split at h
  · cases h
  · split at h
    · cases h
    · cases h
      exact trim_trim _

theorem trim_of_dropRedirects {fuel : Nat} (hTrim : Text.trim cs = cs) (h : dropRedirects fuel cs = .ok ds) :
    Text.trim ds = ds := by
  induction fuel generalizing cs with
  | zero =>
    cases h
    exact hTrim
  | succ fuel ih =>
    rw [dropRedirects] at h
    obtain ⟨extracted, hExtract, h⟩ := Result.exists_of_bind_ok h
    cases extracted with
    | none =>
      cases h
      exact hTrim
    | some r => exact ih (trim_of_extractRedirect hExtract) h

theorem trim_of_splitLine {command : List Char} {redirect : Option Redirect} (hTrim : Text.trim cs = cs)
    (h : splitLine cs = .ok (command, redirect)) : Text.trim command = command := by
  obtain ⟨fuel, redirect', -, hEq, -⟩ := exists_splitLine_eq (isBalanced_of_splitLine h)
  rw [hEq] at h
  obtain ⟨ds, hDrop, hPair⟩ := Result.exists_of_map_ok h
  cases hPair
  exact trim_of_dropRedirects hTrim hDrop

/-- Between pipes nothing is outside of quotes that is not in the whole text. -/
theorem bare_subset_of_mem_splitPipesFrom {part piece : List Char} (hPart : Quote.run .bare part.reverse = q)
    (h : piece ∈ splitPipesFrom q part cs) : bare piece ⊆ bare part.reverse ++ bareFrom q cs := by
  induction cs generalizing q part with
  | nil =>
    rw [List.mem_singleton.mp h]
    exact List.subset_append_left _ _
  | cons c cs ih =>
    by_cases hStop : (q == .bare && c == '|') = true
    · obtain ⟨rfl, rfl⟩ := eq_of_isPipe hStop
      rw [splitPipesFrom_pipe] at h
      rcases List.mem_cons.mp h with rfl | h
      · exact List.subset_append_left _ _
      · have hRest : bare piece ⊆ bareFrom .bare cs := @ih .bare [] rfl h
        exact List.subset_append_of_subset_right _ (List.subset_cons_of_subset '|' hRest)
    · rw [splitPipesFrom_cons hStop] at h
      have hStep : Quote.run .bare (c :: part).reverse = q.step c := by
        rw [List.reverse_cons, Quote.run_append, hPart]
        rfl
      calc bare piece
        _ ⊆ bare (c :: part).reverse ++ bareFrom (q.step c) cs := ih hStep h
        _ = bare part.reverse ++ bareFrom q ([c] ++ cs) := by
          rw [List.reverse_cons, bare, bareFrom_append, hPart, List.append_assoc, bareFrom_append q [c] cs]
          rfl

theorem not_mem_bare_of_mem_splitPipes {piece : List Char} (h : piece ∈ splitPipes cs) (hc : c ∉ bare cs) :
    c ∉ bare piece := by
  have hStart : Quote.run .bare ([] : List Char).reverse = .bare := rfl
  exact fun hMem => hc (bare_subset_of_mem_splitPipesFrom hStart h hMem)

theorem plain_trim_of_mem_splitPipes {piece : List Char} (hBalanced : isBalanced cs = true) (hOperator : '>' ∉ bare cs)
    (h : piece ∈ splitPipes cs) : Plain (Text.trim piece) := by
  obtain ⟨hPiece, hPipe⟩ := part_of_mem_splitPipes hBalanced h
  refine ⟨trim_trim piece, by rwa [isBalanced_trim], (not_mem_bare_trim isBlank_pipe).mpr hPipe, ?_⟩
  exact (not_mem_bare_trim isBlank_operator).mpr (not_mem_bare_of_mem_splitPipes h hOperator)

/-- A stage is read from a part of what is left of its line without redirects. -/
theorem plain_of_mem_stages {line : String} (h : stage ∈ (parse line).stages) :
    readStage? stage.raw = some stage ∧ Plain stage.raw.toList := by
  have hSome : (parse line).stages ≠ [] := List.ne_nil_of_mem h
  obtain ⟨command, redirect, hSplit, hParsed⟩ := exists_of_readLine (exists_of_stages hSome)
  obtain ⟨hBalanced, hOperator⟩ := splitLine_eq_ok hSplit
  rcases hParsed with ⟨-, stages, hRead, hParse⟩ | ⟨hOne, found, hStage, hParse⟩ | hParse
  · rw [hParse] at h
    refine ⟨readStage?_of_readStages hRead stage h, ?_⟩
    obtain ⟨piece, hPiece, hText⟩ := List.mem_map.mp (map_raw_readStages hRead ▸ List.mem_map_of_mem h)
    rw [← hText, String.toList_ofList]
    exact plain_trim_of_mem_splitPipes hBalanced hOperator hPiece
  · rw [hParse] at h
    obtain rfl := List.mem_singleton.mp h
    have hRaw := raw_of_readStage? hStage
    have hPipe : '|' ∉ bare command := by
      rw [splitPipes, length_splitPipesFrom] at hOne
      exact List.count_eq_zero.mp (Nat.succ.inj hOne)
    rw [hRaw, String.toList_ofList]
    exact ⟨hStage, trim_of_splitLine (trim_trim line.toList) hSplit, hBalanced, hPipe, hOperator⟩
  · rw [hParse] at h
    cases h

theorem two_le_length_of_pipeline {line raw : String} {stages : List Stage} {redirect : Option Redirect}
    (h : parse line = .pipeline stages raw redirect) : 2 ≤ stages.length := by
  have hRead : readLine line (Text.trim line.toList) = .ok (.pipeline stages raw redirect) := by
    unfold parse at h
    split at h
    · cases h
    · split at h
      · rename_i hParsed
        rw [hParsed, h]
      · cases h
  obtain ⟨command, redirect', -, ⟨hMany, found, hFound, hParsed⟩ | ⟨-, found, -, hParsed⟩ | hParsed⟩ :=
    exists_of_readLine hRead
  · cases hParsed
    have hLength := congrArg List.length (map_raw_readStages hFound)
    rw [List.length_map, List.length_map] at hLength
    rw [hLength]
    have hPos := List.length_pos_iff.mpr (splitPipesFrom_ne_nil .bare [] command)
    rw [← splitPipes] at hPos
    omega
  · cases hParsed
  · cases hParsed

theorem Plain.afterWord (h : Plain cs) : Plain (afterWord cs) := by
  refine ⟨?_, ?_, not_mem_bare_afterWord isBlank_pipe h.pipe, not_mem_bare_afterWord isBlank_operator h.operator⟩
  · obtain ⟨rest, -, hAfter, -⟩ := exists_words_rest cs
    rw [hAfter, trim_trim]
  · exact isBalanced_iff.mpr (isOpen_run_afterWord (isBalanced_iff.mp h.balanced))

theorem words_afterWord (hLast : ∀ c, cs.getLast? = some c → Text.isBlank c = false) :
    words (afterWord cs) = (words cs).tail := by
  obtain ⟨rest, hSuffix, hAfter, hWords, -⟩ := exists_words_rest cs
  have hLeft : ∀ c, (Text.trimLeft rest).getLast? = some c → Text.isBlank c = false := by
    intro c hc
    obtain ⟨before, rfl⟩ := (List.dropWhile_suffix Text.isBlank).trans hSuffix
    apply hLast
    rw [List.getLast?_append, ← Text.trimLeft, hc]
    rfl
  have hRest : (words cs).take 1 ++ words rest = (words cs).take 1 ++ (words cs).drop 1 := by
    rw [List.take_append_drop, ← words_wordText, ← hWords]
  calc words (afterWord cs)
    _ = words (Text.trimRight (Text.trimLeft rest)) := by rw [hAfter, Text.trim]
    _ = words rest := by rw [trimRight_eq_self hLeft, words_trimLeft]
    _ = (words cs).drop 1 := List.append_cancel_left hRest
    _ = (words cs).tail := List.drop_one

theorem tokenize_dropWord {text : String} (hLast : ∀ c, text.toList.getLast? = some c → Text.isBlank c = false) :
    tokenize (dropWord text) = (tokenize text).tail := by
  rw [tokenize, dropWord, String.toList_ofList, words_afterWord hLast, List.map_tail, tokenize]

theorem isBlank_getLast?_dropWord {text : String} (h : (dropWord text).toList.getLast? = some c) :
    Text.isBlank c = false := by
  rw [dropWord, String.toList_ofList] at h
  exact isBlank_getLast?_afterWord h

/-- Word by word a text loses its first words, and no other. -/
theorem tokenize_iterate_dropWord {text : String}
    (hLast : ∀ c, text.toList.getLast? = some c → Text.isBlank c = false) (n : Nat) :
    tokenize (dropWord^[n] text) = (tokenize text).drop n := by
  induction n generalizing text with
  | zero => rfl
  | succ n ih =>
    rw [Function.iterate_succ_apply, ih fun c hc => isBlank_getLast?_dropWord hc, tokenize_dropWord hLast,
      List.drop_tail]

def elevatedWords : List String → List (List String)
  | [] => []
  | name :: rest => (name :: rest) :: if name == Utility.elevate.name then elevatedWords rest else []

theorem length_wordsFrom_le (q : Quote) (word : Option (List Char)) (cs : List Char) :
    (wordsFrom q word cs).length ≤ cs.length + 1 := by
  induction cs generalizing q word with
  | nil =>
    rw [wordsFrom]
    split
    · exact Nat.le_refl 1
    · exact Nat.zero_le 1
  | cons c cs ih =>
    cases hSeparates : q.separates c with
    | true =>
      obtain ⟨rfl, hBlank⟩ := eq_of_separates hSeparates
      have hRest := ih .bare none
      rw [wordsFrom_separator hBlank, List.length_append, List.length_cons]
      cases word <;> simp [words] <;> omega
    | false =>
      rw [wordsFrom_cons hSeparates, List.length_cons]
      exact Nat.le_succ_of_le (ih _ _)

theorem length_tokenize_le (text : String) : (tokenize text).length ≤ text.length + 1 := by
  rw [tokenize, List.length_map, ← String.length_toList]
  exact length_wordsFrom_le .bare none _

theorem tokenize_eq_of_readStage? {text : String} (h : readStage? text = some stage) :
    ∃ rest, tokenize text = stage.name :: rest ∧ (stage.args, stage.flags) = sortWords [] [] rest := by
  unfold readStage? at h
  split at h
  · cases h
  · rename_i name rest hTokens
    cases h
    exact ⟨rest, hTokens, rfl⟩

theorem elevated?_eq_none (hWords : (tokenize stage.raw).tail = [])
    (hLast : ∀ c, stage.raw.toList.getLast? = some c → Text.isBlank c = false) : stage.elevated? = none := by
  rw [Stage.elevated?, readStage?, tokenize_dropWord hLast, hWords]

theorem exists_elevated? {name : String} {rest : List String} (hWords : (tokenize stage.raw).tail = name :: rest)
    (hLast : ∀ c, stage.raw.toList.getLast? = some c → Text.isBlank c = false) :
    ∃ inner, stage.elevated? = some inner ∧ inner.raw = dropWord stage.raw ∧ tokenize inner.raw = name :: rest := by
  have hTokens : tokenize (dropWord stage.raw) = name :: rest := (tokenize_dropWord hLast).trans hWords
  obtain ⟨inner, hInner, hRaw, -⟩ := exists_readStage? (hTokens ▸ List.cons_ne_nil name rest)
  exact ⟨inner, hInner, hRaw, hRaw ▸ hTokens⟩

/-- There is a stage for each command that is elevated, with its words. -/
theorem map_tokenize_chainFrom {fuel : Nat} (hStage : readStage? stage.raw = some stage)
    (hLast : ∀ c, stage.raw.toList.getLast? = some c → Text.isBlank c = false)
    (hFuel : (tokenize stage.raw).length ≤ fuel + 1) :
    (stage.chainFrom fuel).map (fun inner => tokenize inner.raw) = elevatedWords (tokenize stage.raw) := by
  induction fuel generalizing stage with
  | zero =>
    obtain ⟨rest, hTokens, -⟩ := tokenize_eq_of_readStage? hStage
    rw [hTokens] at hFuel
    obtain rfl : rest = [] := List.length_eq_zero_iff.mp (by simpa using hFuel)
    rw [Stage.chainFrom, List.map_singleton, hTokens, elevatedWords]
    split <;> rfl
  | succ fuel ih =>
    obtain ⟨rest, hTokens, -⟩ := tokenize_eq_of_readStage? hStage
    have hTail : (tokenize stage.raw).tail = rest := by rw [hTokens, List.tail_cons]
    rw [Stage.chainFrom, hTokens, elevatedWords]
    split
    · cases rest with
      | nil =>
        rw [elevated?_eq_none hTail hLast]
        show [tokenize stage.raw] = _
        rw [hTokens]
        rfl
      | cons name rest =>
        obtain ⟨inner, hInner, hRaw, hWords⟩ := exists_elevated? hTail hLast
        have hFound : readStage? inner.raw = some inner := by
          rw [hRaw]
          exact hInner
        rw [hInner]
        show tokenize stage.raw :: (inner.chainFrom fuel).map (fun inner => tokenize inner.raw) = _
        rw [ih hFound, hTokens, hWords]
        · rw [hRaw]
          exact fun c hc => isBlank_getLast?_dropWord hc
        · rw [hWords]
          simpa [hTokens] using hFuel
    · rw [List.map_singleton, hTokens]

theorem map_tokenize_chain (hStage : readStage? stage.raw = some stage)
    (hLast : ∀ c, stage.raw.toList.getLast? = some c → Text.isBlank c = false) :
    stage.chain.map (fun inner => tokenize inner.raw) = elevatedWords (tokenize stage.raw) :=
  map_tokenize_chainFrom hStage hLast (length_tokenize_le stage.raw)

theorem plain_of_mem_chain (hStage : readStage? stage.raw = some stage) (h : Plain stage.raw.toList) :
    ∀ inner ∈ stage.chain, readStage? inner.raw = some inner ∧ Plain inner.raw.toList := by
  refine Stage.forall_mem_chainFrom (P := fun stage => readStage? stage.raw = some stage ∧ Plain stage.raw.toList) ?_
    ⟨hStage, h⟩
  rintro stage inner ⟨-, hPlain⟩ hInner
  have hRaw := raw_of_readStage? hInner
  rw [hRaw]
  refine ⟨hInner, ?_⟩
  rw [dropWord, String.toList_ofList]
  exact hPlain.afterWord

theorem Plain.isBlank_getLast? (h : Plain cs) (hLast : cs.getLast? = some c) : Text.isBlank c = false := by
  rw [← h.trimmed] at hLast
  exact isBlank_getLast?_trim hLast

/-- The text of a stage reads as that stage, and so does the text of each stage that it elevates; the words of these
are the words behind the first of the one before. A pipeline has at least two stages, each with a word. -/
theorem parse_raw (line : String) :
    (∀ stage ∈ (parse line).stages, parse stage.raw = .command stage none ∧
      (tokenize stage.raw).head? = some stage.name ∧
      (∀ inner ∈ stage.chain, parse inner.raw = .command inner none ∧ (tokenize inner.raw).head? = some inner.name) ∧
      stage.chain.map (fun inner => tokenize inner.raw) = elevatedWords (tokenize stage.raw)) ∧
    (∀ text : String, (∀ c, text.toList.getLast? = some c → Text.isBlank c = false) →
      tokenize (dropWord text) = (tokenize text).tail ∧
      ∀ n, tokenize (dropWord^[n] text) = (tokenize text).drop n) ∧
    (∀ stages raw redirect, parse line = .pipeline stages raw redirect →
      2 ≤ stages.length ∧ ∀ stage ∈ stages, tokenize stage.raw ≠ []) := by
  have hReads : ∀ stage : Stage, readStage? stage.raw = some stage ∧ Plain stage.raw.toList →
      parse stage.raw = .command stage none ∧ (tokenize stage.raw).head? = some stage.name := by
    rintro stage ⟨hStage, hPlain⟩
    obtain ⟨rest, hTokens, -⟩ := tokenize_eq_of_readStage? hStage
    exact ⟨hPlain.parse_eq hStage, congrArg List.head? hTokens⟩
  refine ⟨fun stage hMem => ?_, fun text hLast => ⟨tokenize_dropWord hLast, tokenize_iterate_dropWord hLast⟩,
    fun stages raw redirect hParse => ?_⟩
  · obtain ⟨hStage, hPlain⟩ := plain_of_mem_stages hMem
    obtain ⟨hParse, hName⟩ := hReads stage ⟨hStage, hPlain⟩
    exact ⟨hParse, hName, fun inner hInner => hReads inner (plain_of_mem_chain hStage hPlain inner hInner),
      map_tokenize_chain hStage fun c hc => hPlain.isBlank_getLast? hc⟩
  · have hStages : (parse line).stages = stages := congrArg ParsedLine.stages hParse
    have hSome : ∀ stage ∈ stages, tokenize stage.raw ≠ [] := by
      intro stage hMem
      rw [← hStages] at hMem
      exact tokenize_ne_nil_of_readStage? (plain_of_mem_stages hMem).1
    exact ⟨two_le_length_of_pipeline hParse, hSome⟩

/-- The last stage elevates twice; a word of it is quoted in part, and its last blank is escaped and trimmed off. -/
theorem parse_raw_nested :
    let line := "echo 'a|b' >> 'log file' > f c | sudo 's'udo rm -r my\\ dir\\ "
    let echo : Stage := ⟨"echo", ["a|b", "c"], [], "echo 'a|b' c"⟩
    let stage : Stage := ⟨"sudo", ["sudo", "rm", "my dir\\"], [("r", .set)], "sudo 's'udo rm -r my\\ dir\\"⟩
    parse line = .pipeline [echo, stage] (trimText line) (some ⟨false, "f"⟩) ∧
      parse stage.raw = .command stage none ∧ (tokenize stage.raw).head? = some "sudo" ∧
      (∀ inner ∈ stage.chain, parse inner.raw = .command inner none ∧ (tokenize inner.raw).head? = some inner.name) ∧
      stage.chain.map (fun inner => tokenize inner.raw) =
        [["sudo", "sudo", "rm", "-r", "my dir\\"], ["sudo", "rm", "-r", "my dir\\"], ["rm", "-r", "my dir\\"]] ∧
      (∀ c, stage.raw.toList.getLast? = some c → Text.isBlank c = false) ∧
      tokenize (dropWord^[3] stage.raw) = ["-r", "my dir\\"] ∧
      2 ≤ [echo, stage].length ∧ tokenize echo.raw ≠ [] := by
  intro line echo stage
  have hParse : parse line = .pipeline [echo, stage] (trimText line) (some ⟨false, "f"⟩) := by decide +kernel
  have hTokens : tokenize stage.raw = ["sudo", "sudo", "rm", "-r", "my dir\\"] := by decide +kernel
  have hLast : ∀ c, stage.raw.toList.getLast? = some c → Text.isBlank c = false := by
    have hEnd : stage.raw.toList.getLast? = some '\\' := by decide +kernel
    rintro c hc
    rw [hEnd] at hc
    cases hc
    decide
  have hMem : stage ∈ (parse line).stages := by
    rw [hParse]
    exact List.mem_cons_of_mem _ List.mem_cons_self
  obtain ⟨hStages, hTexts, hPipeline⟩ := parse_raw line
  obtain ⟨hStage, hName, hChain, hWords⟩ := hStages stage hMem
  obtain ⟨hTwo, hSome⟩ := hPipeline _ _ _ hParse
  have hDropped := (hTexts stage.raw hLast).2 3
  rw [hTokens] at hWords hDropped
  exact ⟨hParse, hStage, hName, hChain, hWords, hLast, hDropped, hTwo, hSome echo List.mem_cons_self⟩

end VirtualShell.Line
