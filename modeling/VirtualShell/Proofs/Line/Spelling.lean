import VirtualShell.Proofs.Result
import VirtualShell.Shell.Run

/-!
# What a line is spelled with

Readers of a line cut it into pieces and take quotes out, but they put in no characters other than the
space where a redirect was. So whatever holds of the space and of all characters of a line holds of all
characters of its stages, of those that they elevate, and of the arguments of these.
-/
namespace VirtualShell.Line
set_option autoImplicit false

abbrev Spelled (p : Char → Prop) (cs : List Char) : Prop := ∀ c ∈ cs, p c

variable {p : Char → Prop} {cs ds : List Char}

theorem Spelled.append (h : Spelled p cs) (hd : Spelled p ds) : Spelled p (cs ++ ds) :=
  List.forall_mem_append.mpr ⟨h, hd⟩

theorem Spelled.dropWhile (h : Spelled p cs) (q : Char → Bool) : Spelled p (cs.dropWhile q) :=
  fun c hc => h c ((List.dropWhile_sublist q).subset hc)

theorem Spelled.reverse (h : Spelled p cs) : Spelled p cs.reverse := fun c hc => h c (List.mem_reverse.mp hc)

theorem Spelled.trimRight (h : Spelled p cs) : Spelled p (Text.trimRight cs) :=
  (h.reverse.dropWhile _).reverse

theorem Spelled.trim (h : Spelled p cs) : Spelled p (Text.trim cs) := (h.dropWhile _).trimRight

theorem eq_backslash_of_isEscape_step {q : Quote} {c : Char} (h : (q.step c).isEscape = true) : c = '\x5c' := by
  by_cases hc : c = '\x5c'
  · exact hc
  · cases q <;> simp only [Quote.step, beq_iff_eq, hc, if_false] at h
    all_goals (repeat' split at h) <;> cases h

theorem spelled_wordsFrom {q : Quote} (h : Spelled p cs) (word : Option (List Char))
    (hWord : Spelled p (word.getD [])) (hEscape : q.isEscape = true → p '\x5c') :
    ∀ w ∈ wordsFrom q word cs, Spelled p w := by
  induction cs generalizing q word with
  | nil =>
    intro w hw
    rw [wordsFrom] at hw
    split at hw
    · rename_i last hLast
      rw [List.mem_singleton.mp hw]
      refine Spelled.reverse ?_
      split at hLast
      · rename_i hOpen
        cases hLast
        exact List.forall_mem_cons.mpr ⟨hEscape hOpen, hWord⟩
      · rw [hLast] at hWord
        exact hWord
    · cases hw
  | cons c cs ih =>
    obtain ⟨hc, hcs⟩ := List.forall_mem_cons.mp h
    have hStep : (q.step c).isEscape = true → p '\x5c' := fun hOpen => eq_backslash_of_isEscape_step hOpen ▸ hc
    have hNone : Spelled p ((none : Option (List Char)).getD []) := List.forall_mem_nil _
    have hBare : Quote.bare.isEscape = true → p '\x5c' := nofun
    intro w hw
    rw [wordsFrom.eq_def] at hw
    dsimp only at hw
    split at hw
    · split at hw
      · rcases List.mem_cons.mp hw with rfl | hw
        · exact hWord.reverse
        · exact ih hcs none hNone hBare w hw
      · exact ih hcs none hNone hBare w hw
    · split at hw
      · exact ih hcs (some _) hWord hStep w hw
      · exact ih hcs (some _) (List.forall_mem_cons.mpr ⟨hc, hWord⟩) hStep w hw

theorem spelled_words (h : Spelled p cs) : ∀ w ∈ words cs, Spelled p w :=
  spelled_wordsFrom h none (List.forall_mem_nil _) nofun

theorem spelled_tokenize {text : String} (h : Spelled p text.toList) : ∀ w ∈ tokenize text, Spelled p w.toList := by
  intro w hw
  obtain ⟨cs, hcs, rfl⟩ := List.mem_map.mp hw
  rw [String.toList_ofList]
  exact spelled_words h cs hcs

theorem spelled_afterWordFrom {q : Quote} (h : Spelled p cs) : Spelled p (afterWordFrom q cs) := by
  induction cs generalizing q with
  | nil => exact h
  | cons c cs ih =>
    rw [afterWordFrom]
    split
    · exact h.trim
    · exact ih (List.forall_mem_cons.mp h).2

theorem spelled_afterWord (h : Spelled p cs) : Spelled p (afterWord cs) := spelled_afterWordFrom (h.dropWhile _)

theorem spelled_splitPipesFrom {q : Quote} {part : List Char} (h : Spelled p cs) (hPart : Spelled p part) :
    ∀ piece ∈ splitPipesFrom q part cs, Spelled p piece := by
  induction cs generalizing q part with
  | nil =>
    intro piece hPiece
    rw [List.mem_singleton.mp hPiece]
    exact hPart.reverse
  | cons c cs ih =>
    obtain ⟨hc, hcs⟩ := List.forall_mem_cons.mp h
    intro piece hPiece
    rw [splitPipesFrom] at hPiece
    split at hPiece
    · rcases List.mem_cons.mp hPiece with rfl | hPiece
      · exact hPart.reverse
      · exact ih hcs (List.forall_mem_nil _) piece hPiece
    · exact ih hcs (List.forall_mem_cons.mpr ⟨hc, hPart⟩) piece hPiece

theorem spelled_splitPipes (h : Spelled p cs) : ∀ piece ∈ splitPipes cs, Spelled p piece :=
  spelled_splitPipesFrom h (List.forall_mem_nil _)

theorem spelled_lastOperatorFrom {q : Quote} {before : List Char} {split : OperatorSplit} (h : Spelled p cs)
    (hBefore : Spelled p before) (hSplit : lastOperatorFrom q before cs = some split) :
    Spelled p split.before ∧ Spelled p split.after := by
  fun_induction lastOperatorFrom q before cs with
  | case1 q before => cases hSplit
  | case2 q before c hOperator rest ih =>
    obtain ⟨-, hcs⟩ := List.forall_mem_cons.mp h
    obtain ⟨hd, hRest⟩ := List.forall_mem_cons.mp hcs
    rcases Option.or_eq_some_iff.mp hSplit with hLater | ⟨-, hHere⟩
    · exact ih hRest (List.forall_mem_cons.mpr ⟨hd, List.forall_mem_cons.mpr ⟨hd, hBefore⟩⟩) hLater
    · cases hHere
      exact ⟨hBefore.reverse, hRest⟩
  | case3 q before c hOperator cs hSingle ih =>
    obtain ⟨hc, hcs⟩ := List.forall_mem_cons.mp h
    have hOperator : c = '>' := by simpa using ((Bool.and_eq_true _ _).mp hOperator).2
    rcases Option.or_eq_some_iff.mp hSplit with hLater | ⟨-, hHere⟩
    · exact ih hcs (List.forall_mem_cons.mpr ⟨hOperator ▸ hc, hBefore⟩) hLater
    · cases hHere
      exact ⟨hBefore.reverse, hcs⟩
  | case4 q before c cs hOther ih =>
    obtain ⟨hc, hcs⟩ := List.forall_mem_cons.mp h
    exact ih hcs (List.forall_mem_cons.mpr ⟨hc, hBefore⟩) hSplit

/-- A space may come into the line in the place of a redirect. -/
theorem spelled_extractRedirect {r : Redirected} (h : Spelled p cs) (hSpace : p ' ')
    (hExtract : extractRedirect cs = .ok (some r)) : Spelled p r.command := by
  unfold extractRedirect at hExtract
  split at hExtract
  · cases hExtract
  · rename_i split hSplit
    obtain ⟨hBefore, hAfter⟩ := spelled_lastOperatorFrom h (List.forall_mem_nil _) hSplit
    split at hExtract
    · cases hExtract
    · cases hExtract
      refine (hBefore.trimRight.append ?_).trim
      split
      · exact List.forall_mem_nil _
      · exact List.forall_mem_cons.mpr ⟨hSpace, spelled_afterWord hAfter⟩

theorem spelled_dropRedirects {fuel : Nat} (h : Spelled p cs) (hSpace : p ' ')
    (hDrop : dropRedirects fuel cs = .ok ds) : Spelled p ds := by
  induction fuel generalizing cs with
  | zero =>
    cases hDrop
    exact h
  | succ fuel ih =>
    rw [dropRedirects] at hDrop
    obtain ⟨extracted, hExtract, hDrop⟩ := Result.exists_of_bind_ok hDrop
    cases extracted with
    | none =>
      cases hDrop
      exact h
    | some r => exact ih (spelled_extractRedirect h hSpace hExtract) hDrop

theorem spelled_splitLine {command : List Char} {redirect : Option Redirect} (h : Spelled p cs) (hSpace : p ' ')
    (hSplit : splitLine cs = .ok (command, redirect)) : Spelled p command := by
  unfold splitLine at hSplit
  split at hSplit
  · cases hSplit
  · obtain ⟨extracted, hExtract, hSplit⟩ := Result.exists_of_bind_ok hSplit
    cases extracted with
    | none =>
      cases hSplit
      exact h
    | some r =>
      obtain ⟨command', hDrop, hSplit⟩ := Result.exists_of_bind_ok hSplit
      cases hSplit
      exact spelled_dropRedirects (spelled_extractRedirect h hSpace hExtract) hSpace hDrop

/-- The text of a stage, and the arguments that were read from it. -/
structure Stage.Spelled (p : Char → Prop) (stage : Stage) : Prop where
  raw : Line.Spelled p stage.raw.toList
  args : ∀ w ∈ stage.args, Line.Spelled p w.toList

theorem Stage.spelled_true (stage : Stage) : stage.Spelled fun _ => True :=
  ⟨fun _ _ => trivial, fun _ _ _ _ => trivial⟩

theorem sortWord_subset (args : List String) (flags : Flags) (word : String) :
    ∀ w ∈ (sortWord args flags word).1, w ∈ args ∨ w = word := by
  intro w hw
  have hArg : w ∈ args ++ [word] → w ∈ args ∨ w = word := by simp
  unfold sortWord at hw
  split at hw
  · exact hArg hw
  · exact .inl hw
  · split at hw
    · exact hArg hw
    · exact .inl hw
  · exact hArg hw

theorem sortWords_subset (args : List String) (flags : Flags) (words : List String) :
    ∀ w ∈ (sortWords args flags words).1, w ∈ args ∨ w ∈ words := by
  induction words generalizing args flags with
  | nil => exact fun w hw => .inl hw
  | cons word words ih =>
    intro w hw
    rcases ih _ _ w hw with hArg | hWord
    · rcases sortWord_subset args flags word w hArg with hArg | rfl
      · exact .inl hArg
      · exact .inr List.mem_cons_self
    · exact .inr (List.mem_cons_of_mem word hWord)

theorem spelled_readStage? {text : String} {stage : Stage} (h : Spelled p text.toList)
    (hRead : readStage? text = some stage) : stage.Spelled p := by
  have hWords := spelled_tokenize h
  unfold readStage? at hRead
  split at hRead
  · cases hRead
  · rename_i name rest hTokens
    cases hRead
    refine ⟨h, fun w hw => hWords w ?_⟩
    rw [hTokens]
    rcases sortWords_subset [] [] rest w hw with hArg | hWord
    · cases hArg
    · exact List.mem_cons_of_mem name hWord

theorem Stage.Spelled.elevated {stage inner : Stage} (h : stage.Spelled p) (hInner : stage.elevated? = some inner) :
    inner.Spelled p := by
  refine spelled_readStage? ?_ hInner
  rw [dropWord, String.toList_ofList]
  exact spelled_afterWord h.raw

/-- What a stage hands on to the one that it elevates holds of all that run in its place. -/
theorem Stage.forall_mem_chainFrom {P : Stage → Prop}
    (hElevated : ∀ stage inner : Stage, P stage → stage.elevated? = some inner → P inner) {fuel : Nat} {stage : Stage}
    (h : P stage) : ∀ inner ∈ stage.chainFrom fuel, P inner := by
  induction fuel generalizing stage with
  | zero => exact List.forall_mem_singleton.mpr h
  | succ fuel ih =>
    rw [Stage.chainFrom]
    split
    · split
      · rename_i inner hInner
        exact List.forall_mem_cons.mpr ⟨h, ih (hElevated stage inner h hInner)⟩
      · exact List.forall_mem_singleton.mpr h
    · exact List.forall_mem_singleton.mpr h

theorem Stage.Spelled.chain {stage : Stage} (h : stage.Spelled p) : ∀ inner ∈ stage.chain, inner.Spelled p :=
  Stage.forall_mem_chainFrom (fun _ _ hOuter hInner => hOuter.elevated hInner) h

theorem spelled_readStages {parts : List (List Char)} {stages : List Stage} (h : ∀ part ∈ parts, Spelled p part)
    (hRead : readStages parts = .ok stages) : ∀ stage ∈ stages, stage.Spelled p := by
  induction parts generalizing stages with
  | nil =>
    cases hRead
    exact List.forall_mem_nil _
  | cons part parts ih =>
    obtain ⟨hPart, hParts⟩ := List.forall_mem_cons.mp h
    rw [readStages, List.mapM_cons] at hRead
    obtain ⟨stage, hStage, hRead⟩ := Result.exists_of_bind_ok hRead
    obtain ⟨rest, hRest, hRead⟩ := Result.exists_of_bind_ok hRead
    cases hRead
    refine List.forall_mem_cons.mpr ⟨?_, ih hParts hRest⟩
    unfold readPart at hStage
    split at hStage
    · rename_i found hFound
      cases hStage
      refine spelled_readStage? ?_ hFound
      rw [String.toList_ofList]
      exact hPart.trim
    · cases hStage

def ParsedLine.stages : ParsedLine → List Stage
  | .empty _ | .error .. => []
  | .command stage _ => [stage]
  | .pipeline stages .. => stages

theorem spelled_readLine {line : String} {parsed : ParsedLine} (h : Spelled p cs) (hSpace : p ' ')
    (hRead : readLine line cs = .ok parsed) : ∀ stage ∈ parsed.stages, stage.Spelled p := by
  obtain ⟨⟨command, redirect⟩, hSplit, hRead⟩ := Result.exists_of_bind_ok hRead
  have hCommand := spelled_splitLine h hSpace hSplit
  have hParts := spelled_splitPipes hCommand
  dsimp only at hRead
  split at hRead
  · rename_i first second rest hPipes
    obtain ⟨stages, hStages, hRead⟩ := Result.exists_of_bind_ok hRead
    cases hRead
    rw [hPipes] at hParts
    exact spelled_readStages hParts hStages
  · split at hRead
    · rename_i stage hStage
      cases hRead
      refine List.forall_mem_singleton.mpr (spelled_readStage? ?_ hStage)
      rwa [String.toList_ofList]
    · cases hRead
      exact List.forall_mem_nil _

theorem spelled_parse {line : String} (h : Spelled p line.toList) (hSpace : p ' ') :
    ∀ stage ∈ (parse line).stages, stage.Spelled p := by
  unfold parse
  split
  · exact List.forall_mem_nil _
  · split
    · rename_i hRead
      exact spelled_readLine h.trim hSpace hRead
    · exact List.forall_mem_nil _

end VirtualShell.Line
