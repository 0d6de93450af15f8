import VirtualShell.Proofs.Line.Quoting
import VirtualShell.Proofs.Result

/-!
# Lines that are written from words

`writeLine` writes a pipeline of quoted words with its redirect, and `parse_writeLine` says that it is
read back as what was written, whatever the words are.
-/
namespace VirtualShell.Line
set_option autoImplicit false

def writeStage (ws : List String) : String := " ".intercalate (ws.map quoteWord)

def writeRedirect : Option Redirect → String
  | none => ""
  | some r => (if r.append then " >> " else " > ") ++ quoteWord r.target

def writeLine (stages : List (List String)) (redirect : Option Redirect) : String :=
  " | ".intercalate (stages.map writeStage) ++ writeRedirect redirect

theorem toList_writeStage (ws : List String) : (writeStage ws).toList = stageChars (ws.map String.toList) := by
  have hWords : (ws.map quoteWord).map String.toList = (ws.map String.toList).map quoteChars := by
    rw [List.map_map, List.map_map]
    exact List.map_congr_left fun w _ => String.toList_ofList
  rw [writeStage, String.toList_intercalate, hWords]
  rfl

theorem tokenize_writeStage (ws : List String) : tokenize (writeStage ws) = ws := by
  rw [tokenize, toList_writeStage, words_stageChars, List.map_map]
  exact (List.map_congr_left fun w _ => String.ofList_toList).trans (List.map_id ws)

def stageOf (ws : List String) : Stage :=
  let (args, flags) := sortWords [] [] ws.tail
  { name := ws.headD "", args, flags, raw := writeStage ws }

theorem readStage?_writeStage {ws : List String} (h : ws ≠ []) :
    readStage? (writeStage ws) = some (stageOf ws) := by
  rw [readStage?, tokenize_writeStage]
  cases ws with
  | nil => exact absurd rfl h
  | cons name rest => rfl

theorem readPart_eq {ws : List String} (hWords : ws ≠ []) {part : List Char}
    (h : Text.trim part = stageChars (ws.map String.toList)) : readPart part = .ok (stageOf ws) := by
  rw [readPart, h, ← toList_writeStage, String.ofList_toList, readStage?_writeStage hWords]

theorem readStages_eq {stages : List (List String)} (hWords : ∀ ws ∈ stages, ws ≠ []) {parts : List (List Char)}
    (h : parts.map Text.trim = stages.map fun ws => stageChars (ws.map String.toList)) :
    readStages parts = .ok (stages.map stageOf) := by
  induction stages generalizing parts with
  | nil =>
    rw [List.map_nil, List.map_eq_nil_iff] at h
    rw [h]
    rfl
  | cons ws stages ih =>
    obtain ⟨part, parts, rfl, hPart, hParts⟩ := List.map_eq_cons_iff.mp h
    obtain ⟨hFirst, hRest⟩ := List.forall_mem_cons.mp hWords
    have hStages := ih hRest hParts
    rw [readStages] at hStages
    rw [readStages, List.mapM_cons, readPart_eq hFirst hPart, Result.ok_bind, hStages]
    rfl

def commandChars (stages : List (List String)) : List Char :=
  [' ', '|', ' '].intercalate (stages.map fun ws => stageChars (ws.map String.toList))

theorem commandChars_singleton (ws : List String) : commandChars [ws] = stageChars (ws.map String.toList) :=
  List.intercalate_singleton

theorem commandChars_cons_cons (ws vs : List String) (stages : List (List String)) :
    commandChars (ws :: vs :: stages) =
      stageChars (ws.map String.toList) ++ ' ' :: '|' :: ' ' :: commandChars (vs :: stages) := by
  simp [commandChars, List.intercalate_cons_cons]

def IsCommandMark (c : Char) : Prop := IsStageMark c ∨ c = '|'

theorem not_isCommandMark_operator : ¬IsCommandMark '>' := by
  rintro ((h | h) | h)
  · exact not_isMark_operator h
  · exact absurd h (by decide)
  · exact absurd h (by decide)

theorem shows_commandChars (stages : List (List String)) : Shows IsCommandMark .bare (commandChars stages) := by
  have hStage : ∀ ws : List String, Shows IsCommandMark .bare (stageChars (ws.map String.toList)) :=
    fun ws => (shows_stageChars _).mono fun c hc => .inl hc
  induction stages with
  | nil => rfl
  | cons ws stages ih =>
    cases stages with
    | nil =>
      rw [commandChars_singleton]
      exact hStage ws
    | cons vs stages =>
      rw [commandChars_cons_cons]
      exact (hStage ws).append ⟨fun _ => .inl (.inr rfl), fun _ => .inr rfl, fun _ => .inl (.inr rfl), ih⟩

theorem framed_commandChars {stages : List (List String)} (hStages : stages ≠ [])
    (hWords : ∀ ws ∈ stages, ws ≠ []) : Framed (commandChars stages) := by
  have hStage : ∀ ws ∈ stages, Framed (stageChars (ws.map String.toList)) := by
    intro ws hws
    apply framed_stageChars
    rw [Ne, List.map_eq_nil_iff]
    exact hWords ws hws
  induction stages with
  | nil => exact absurd rfl hStages
  | cons ws stages ih =>
    obtain ⟨hFirst, hRest⟩ := List.forall_mem_cons.mp hStage
    cases stages with
    | nil =>
      rw [commandChars_singleton]
      exact hFirst
    | cons vs stages =>
      have hTail := ih (List.cons_ne_nil vs stages) (List.forall_mem_cons.mp hWords).2 hRest
      have hFramed := hFirst.append hTail [' ', '|', ' ']
      rw [commandChars_cons_cons]
      rwa [List.append_assoc] at hFramed

/-- Up to blanks, the parts between pipes are the stages. -/
theorem map_trim_splitPipesFrom {stages : List (List String)} (hStages : stages ≠ [])
    (hWords : ∀ ws ∈ stages, ws ≠ []) {part : List Char} (hPart : part.all Text.isBlank = true) :
    (splitPipesFrom .bare part (commandChars stages)).map Text.trim =
      stages.map fun ws => stageChars (ws.map String.toList) := by
  induction stages generalizing part with
  | nil => exact absurd rfl hStages
  | cons ws stages ih =>
    have hFramed := framed_commandChars (List.cons_ne_nil ws []) (by simpa using hWords ws List.mem_cons_self)
    rw [commandChars_singleton] at hFramed
    have hBefore : part.reverse.all Text.isBlank = true := by rwa [List.all_reverse]
    have hShows := shows_stageChars (ws.map String.toList)
    cases stages with
    | nil =>
      have hTrim := hFramed.trim_append hBefore (List.all_nil (f := Text.isBlank))
      rw [List.append_nil] at hTrim
      rw [commandChars_singleton, hShows.splitPipesFrom_eq not_isStageMark_pipe, List.map_singleton,
        List.map_singleton, hTrim]
    | cons vs stages =>
      rw [commandChars_cons_cons, hShows.splitPipesFrom_append not_isStageMark_pipe]
      show Text.trim (' ' :: ((stageChars _).reverse ++ part)).reverse ::
        (splitPipesFrom .bare [' '] (commandChars (vs :: stages))).map Text.trim = _
      rw [ih (List.cons_ne_nil vs stages) (List.forall_mem_cons.mp hWords).2 rfl, List.reverse_cons,
        List.reverse_append, List.reverse_reverse, List.append_assoc, hFramed.trim_append hBefore rfl]
      rfl

def operatorChars (append : Bool) : List Char := if append then ['>', '>'] else ['>']

def redirectChars : Option Redirect → List Char
  | none => []
  | some r => ' ' :: (operatorChars r.append ++ ' ' :: quoteChars r.target.toList)

theorem toList_writeRedirect (redirect : Option Redirect) : (writeRedirect redirect).toList = redirectChars redirect := by
  cases redirect with
  | none => rfl
  | some r =>
    rw [writeRedirect, String.toList_append, quoteWord, String.toList_ofList, redirectChars, operatorChars]
    cases r.append <;> rfl

theorem toList_writeLine (stages : List (List String)) (redirect : Option Redirect) :
    (writeLine stages redirect).toList = commandChars stages ++ redirectChars redirect := by
  have hCommand : (" | ".intercalate (stages.map writeStage)).toList = commandChars stages := by
    have hStages : (stages.map writeStage).map String.toList =
        stages.map fun ws => stageChars (ws.map String.toList) := by
      rw [List.map_map]
      exact List.map_congr_left fun ws _ => toList_writeStage ws
    rw [String.toList_intercalate, hStages]
    rfl
  rw [writeLine, String.toList_append, hCommand, toList_writeRedirect]

def Redirect.chars (r : Redirect) : List Char := operatorChars r.append ++ ' ' :: quoteChars r.target.toList

theorem redirectChars_some (r : Redirect) : redirectChars (some r) = ' ' :: r.chars := rfl

theorem shows_chars (r : Redirect) : Shows (fun _ => True) .bare r.chars := by
  have hTarget := (shows_quoteChars r.target.toList).mono (r := fun _ => True) (fun _ _ => trivial)
  rw [Redirect.chars, operatorChars]
  cases r.append with
  | false => exact ⟨fun _ => trivial, fun _ => trivial, hTarget⟩
  | true => exact ⟨fun _ => trivial, fun _ => trivial, fun _ => trivial, hTarget⟩

theorem lastOperator_append {p : Char → Prop} {ds : List Char} (h : Shows p .bare ds) (hp : ¬p '>') (r : Redirect) :
    lastOperator (ds ++ r.chars) = some ⟨ds, r.append, ' ' :: quoteChars r.target.toList⟩ := by
  have hTarget : ∀ before, lastOperatorFrom .bare before (' ' :: quoteChars r.target.toList) = none := by
    intro before
    rw [lastOperatorFrom_cons (by decide)]
    exact (shows_quoteChars r.target.toList).lastOperatorFrom_eq_none not_isMark_operator _
  rw [lastOperator, h.lastOperatorFrom_append hp, Redirect.chars, List.append_nil, operatorChars]
  cases r.append with
  | false =>
    show (lastOperatorFrom .bare ('>' :: ds.reverse) (' ' :: quoteChars r.target.toList)).or _ = _
    rw [hTarget, Option.none_or, List.reverse_reverse]
  | true =>
    show (lastOperatorFrom .bare ('>' :: '>' :: ds.reverse) (' ' :: quoteChars r.target.toList)).or _ = _
    rw [hTarget, Option.none_or, List.reverse_reverse]
    rfl

theorem words_target (cs : List Char) : words (' ' :: quoteChars cs) = [cs] := by
  have hWords := words_stageChars [cs]
  rwa [stageChars_singleton] at hWords

theorem afterWord_target (cs : List Char) : afterWord (' ' :: quoteChars cs) = [] := by
  have hTrim := (framed_quoteChars cs).trimLeft_append (by decide : [' '].all Text.isBlank = true) []
  rw [List.append_nil] at hTrim
  have hAfter := (shows_quoteChars cs).afterWordFrom_eq_nil fun c hc => hc.not_blank
  rw [afterWord]
  exact (congrArg _ hTrim).trans hAfter

/-- A redirect behind a command is taken out together with the blanks before it. -/
theorem extractRedirect_append {p : Char → Prop} {cs blanks : List Char} (h : Shows p .bare (cs ++ blanks))
    (hp : ¬p '>') (hFramed : Framed cs) (hBlanks : blanks.all Text.isBlank = true) (r : Redirect) :
    extractRedirect (cs ++ blanks ++ r.chars) = .ok (some ⟨cs, r⟩) := by
  have hCommand : Text.trim (Text.trimRight (cs ++ blanks) ++ []) = cs := by
    rw [hFramed.trimRight_append hBlanks, List.append_nil, hFramed.trim_eq]
  rw [extractRedirect, lastOperator_append h hp]
  simp only [words_target, afterWord_target, List.isEmpty_nil, if_true]
  rw [hCommand, String.ofList_toList]

theorem framed_line {stages : List (List String)} (hStages : stages ≠ []) (hWords : ∀ ws ∈ stages, ws ≠ [])
    (redirect : Option Redirect) : Framed (commandChars stages ++ redirectChars redirect) := by
  have hCommand := framed_commandChars hStages hWords
  cases redirect with
  | none =>
    rw [redirectChars, List.append_nil]
    exact hCommand
  | some r =>
    have hFramed := hCommand.append (framed_quoteChars r.target.toList) (' ' :: (operatorChars r.append ++ [' ']))
    simpa [redirectChars] using hFramed

theorem isBalanced_line (stages : List (List String)) (redirect : Option Redirect) :
    isBalanced (commandChars stages ++ redirectChars redirect) = true := by
  have hRedirect : Shows (fun _ => True) .bare (redirectChars redirect) := by
    cases redirect with
    | none => rfl
    | some r => exact ⟨fun _ => trivial, shows_chars r⟩
  have hLine := ((shows_commandChars stages).mono fun _ _ => trivial).append hRedirect
  rw [isBalanced, hLine.run_eq]
  rfl

theorem splitLine_line {stages : List (List String)} (hStages : stages ≠ []) (hWords : ∀ ws ∈ stages, ws ≠ [])
    (redirect : Option Redirect) :
    splitLine (commandChars stages ++ redirectChars redirect) = .ok (commandChars stages, redirect) := by
  have hShows := shows_commandChars stages
  rw [splitLine, isBalanced_line]
  cases redirect with
  | none =>
    rw [redirectChars, List.append_nil, hShows.extractRedirect_eq_none not_isCommandMark_operator]
    rfl
  | some r =>
    have hSpace : Shows IsCommandMark .bare (commandChars stages ++ [' ']) :=
      hShows.append ⟨fun _ => .inl (.inr rfl), rfl⟩
    rw [redirectChars_some, List.append_cons,
      extractRedirect_append hSpace not_isCommandMark_operator (framed_commandChars hStages hWords) (by decide)]
    show (dropRedirects _ (commandChars stages) >>= fun command => .ok (command, some r)) = _
    rw [hShows.dropRedirects_eq not_isCommandMark_operator]
    rfl

theorem readLine_command {ws : List String} (hWords : ws ≠ []) (redirect : Option Redirect) (line : String) :
    readLine line (commandChars [ws] ++ redirectChars redirect) = .ok (.command (stageOf ws) redirect) := by
  have hSplit := splitLine_line (List.cons_ne_nil ws []) (by simpa using hWords) redirect
  rw [readLine, hSplit, commandChars_singleton, Result.ok_bind]
  dsimp only
  rw [(shows_stageChars _).splitPipes_eq not_isStageMark_pipe]
  dsimp only
  rw [← toList_writeStage, String.ofList_toList, readStage?_writeStage hWords]
  rfl

theorem readLine_pipeline {stages : List (List String)} (hLength : 2 ≤ stages.length)
    (hWords : ∀ ws ∈ stages, ws ≠ []) (redirect : Option Redirect) (line : String) :
    readLine line (commandChars stages ++ redirectChars redirect) =
      .ok (.pipeline (stages.map stageOf)
        (String.ofList (commandChars stages ++ redirectChars redirect)) redirect) := by
  have hStages : stages ≠ [] := List.ne_nil_of_length_pos (by omega)
  have hParts := map_trim_splitPipesFrom hStages hWords (List.all_nil (f := Text.isBlank))
  have hRead := readStages_eq hWords hParts
  have hCount : (splitPipesFrom .bare [] (commandChars stages)).length = stages.length := by
    rw [← List.length_map Text.trim, hParts, List.length_map]
  rw [readLine, splitLine_line hStages hWords, Result.ok_bind]
  dsimp only
  rw [splitPipes]
  cases hSplit : splitPipesFrom .bare [] (commandChars stages) with
  | nil =>
    rw [hSplit, List.length_nil] at hCount
    omega
  | cons first parts =>
    cases parts with
    | nil =>
      rw [hSplit, List.length_singleton] at hCount
      omega
    | cons second rest =>
      rw [hSplit] at hRead
      dsimp only
      rw [hRead]
      rfl

theorem parse_eq_of_trim {line : String} {cs : List Char} (hTrim : Text.trim line.toList = cs) (hFramed : Framed cs)
    {parsed : ParsedLine} (h : readLine line cs = .ok parsed) : parse line = parsed := by
  rw [parse, hTrim]
  cases cs with
  | nil => exact absurd rfl hFramed.ne_nil
  | cons c cs => simp only [h]

theorem parse_eq_of_readLine {line : String} {cs : List Char} (hLine : line.toList = cs) (hFramed : Framed cs)
    {parsed : ParsedLine} (h : readLine line cs = .ok parsed) : parse line = parsed :=
  parse_eq_of_trim (hLine ▸ hFramed.trim_eq) hFramed h

theorem map_tokenize_stageOf (stages : List (List String)) :
    (stages.map stageOf).map (fun stage => tokenize stage.raw) = stages := by
  rw [List.map_map]
  exact (List.map_congr_left fun ws _ => tokenize_writeStage ws).trans (List.map_id stages)

theorem map_name_stageOf {stages : List (List String)} (hWords : ∀ ws ∈ stages, ws ≠ []) :
    (stages.map stageOf).map (fun stage => some stage.name) = stages.map List.head? := by
  rw [List.map_map]
  apply List.map_congr_left
  intro ws hws
  cases ws with
  | nil => exact absurd rfl (hWords [] hws)
  | cons name rest => rfl

/-- A line is read back as the stages that it was written from, with their words and their redirect. -/
theorem parse_writeLine {stages : List (List String)} (hStages : stages ≠ []) (hWords : ∀ ws ∈ stages, ws ≠ [])
    (redirect : Option Redirect) :
    ∃ read : List Stage, read.map (fun stage => tokenize stage.raw) = stages ∧
      read.map (fun stage => some stage.name) = stages.map List.head? ∧
      parse (writeLine stages redirect) =
        match read with
        | [stage] => .command stage redirect
        | read => .pipeline read (writeLine stages redirect) redirect := by
  refine ⟨stages.map stageOf, map_tokenize_stageOf stages, map_name_stageOf hWords, ?_⟩
  apply parse_eq_of_readLine (toList_writeLine stages redirect) (framed_line hStages hWords redirect)
  rcases stages with _ | ⟨ws, _ | ⟨vs, rest⟩⟩
  · exact absurd rfl hStages
  · exact readLine_command (hWords ws List.mem_cons_self) redirect _
  · rw [readLine_pipeline (by rw [List.length_cons, List.length_cons]; omega) hWords, ← toList_writeLine,
      String.ofList_toList]
    rfl

/-- The words of two stages hold what a line is otherwise split at, and one of them is empty. -/
theorem parse_writeLine_marks :
    ∃ read : List Stage,
      read.map (fun stage => tokenize stage.raw) = [["a|b", ""], ["it's > \\", " "]] ∧
      read.map (fun stage => some stage.name) = [some "a|b", some "it's > \\"] ∧
      parse (writeLine [["a|b", ""], ["it's > \\", " "]] (some ⟨true, ">>"⟩)) =
        match read with
        | [stage] => .command stage (some ⟨true, ">>"⟩)
        | read => .pipeline read (writeLine [["a|b", ""], ["it's > \\", " "]] (some ⟨true, ">>"⟩))
            (some ⟨true, ">>"⟩) :=
  parse_writeLine (List.cons_ne_nil _ _) (by simp) (some ⟨true, ">>"⟩)

end VirtualShell.Line
