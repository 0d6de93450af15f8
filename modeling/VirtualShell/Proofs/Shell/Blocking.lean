import VirtualShell.Proofs.Line.Rereading
import VirtualShell.Proofs.Shell.Keeping

/-!
# Commands that are never run elevated

An elevated stage is read anew from the text behind its first word, however often it is elevated. A command that
is never run elevated is refused there, before it does anything, and the blocks that were entered on the way to it
end as they began: `runStage_blocked`.
-/
namespace VirtualShell
set_option autoImplicit false

namespace Line

theorem sortWord_of_ne_dash {word : String} (h : word.toList.head? ≠ some '-') (args : List String) (flags : Flags) :
    sortWord args flags word = (args ++ [word], flags) := by
  unfold sortWord
  split
  · rfl
  · rename_i hWord
    exact absurd (congrArg List.head? hWord) h
  · rename_i hWord
    exact absurd (congrArg List.head? hWord) h
  · rfl

theorem subset_fst_sortWord (args : List String) (flags : Flags) (word : String) :
    args ⊆ (sortWord args flags word).1 := by
  have hMore : args ⊆ args ++ [word] := List.subset_append_left _ _
  unfold sortWord
  split
  · exact hMore
  · exact List.Subset.refl _
  · split
    · exact hMore
    · exact List.Subset.refl _
  · exact hMore

theorem subset_fst_sortWords (args : List String) (flags : Flags) (words : List String) :
    args ⊆ (sortWords args flags words).1 := by
  induction words generalizing args flags with
  | nil => exact List.Subset.refl _
  | cons word words ih => exact List.Subset.trans (subset_fst_sortWord args flags word) (ih _ _)

/-- A word without a dash is an argument. -/
theorem fst_sortWords_ne_nil {word : String} (h : word.toList.head? ≠ some '-') (words : List String) :
    (sortWords [] [] (word :: words)).1 ≠ [] := by
  rw [sortWords, sortWord_of_ne_dash h]
  exact List.ne_nil_of_mem (subset_fst_sortWords _ _ words (List.mem_append_right [] (List.mem_singleton_self word)))

theorem Stage.exists_chainFrom_eq (fuel : Nat) (stage : Stage) : ∃ inners, stage.chainFrom fuel = stage :: inners := by
  cases fuel with
  | zero => exact ⟨[], rfl⟩
  | succ fuel =>
    rw [chainFrom]
    split
    · split
      · exact ⟨_, rfl⟩
      · exact ⟨[], rfl⟩
    · exact ⟨[], rfl⟩

end Line

theorem head?_ne_dash_of_isBlocked {denied args : List String} {name : String} {flags : Line.Flags}
    (hDenied : ∀ name ∈ denied, name.toList.head? ≠ some '-') (h : isBlocked denied name args flags = true) :
    name.toList.head? ≠ some '-' := by
  have hDangerous : ∀ name ∈ dangerousCommands, name.toList.head? ≠ some '-' := by decide
  simp only [isBlocked, Bool.or_eq_true, Bool.and_eq_true, List.contains_iff_mem, beq_iff_eq] at h
  rcases h with (hName | hName) | ⟨rfl, -⟩
  · exact hDangerous name hName
  · exact hDenied name hName
  · decide

/-- An elevated block in which nothing has happened leaves the session as it was. -/
theorem Session.leaveElevation_enterElevation (s : Session) :
    leaveElevation s.enterElevation.1 s.enterElevation.2 = (.ok (), s) := by
  show (Except.ok (), { s with username := if s.switches == s.switches then s.username else adminName }) = _
  rw [beq_self_eq_true, if_pos rfl]

namespace Shell

variable {o : ShellOptions} {markup : Bool} {piped : Option String} {sh : Shell} {stage : Line.Stage} {fuel : Nat}

/-- A command was refused because it is never run elevated, and the session is still `s`. -/
structure Blocks (s : Session) (result : Reply × Shell) : Prop where
  failed : result.1.failed = true
  kind : result.1.kind = some .blocked
  session : result.2.session = s

theorem Blocks.countRun {s : Session} {result : Reply × Shell} (h : Blocks s result) (name : String) :
    Blocks s (result.1, result.2.countRun name result.1) :=
  ⟨h.failed, h.kind, (session_countRun result.2 name result.1).trans h.session⟩

theorem Blocks.elevate {inner : Shell → Reply × Shell}
    (h : Blocks sh.session.enterElevation.2 (inner { sh with session := sh.session.enterElevation.2 })) (name : String) :
    Blocks sh.session (sh.elevate name inner) := by
  have hLeave := Session.leaveElevation_enterElevation sh.session
  rw [← h.session] at hLeave
  unfold Shell.elevate
  dsimp only
  rw [hLeave]
  exact ⟨h.failed, h.kind, rfl⟩

/-- A stage that elevates reads the next one from the words behind its own name, and refuses or runs it. -/
theorem exists_runChain_chainFrom {next : String} {more : List String}
    (hLast : ∀ c, stage.raw.toList.getLast? = some c → Text.isBlank c = false)
    (hStage : Line.readStage? stage.raw = some stage) (hFuel : (Line.tokenize stage.raw).length ≤ fuel + 1)
    (hWords : Line.tokenize stage.raw = Utility.elevate.name :: next :: more) (hNext : next.toList.head? ≠ some '-')
    (o : ShellOptions) (piped : Option String) (markup : Bool) :
    ∃ inner fuel', Line.readStage? inner.raw = some inner ∧ Line.tokenize inner.raw = next :: more ∧
      (∀ c, inner.raw.toList.getLast? = some c → Text.isBlank c = false) ∧
      (Line.tokenize inner.raw).length ≤ fuel' + 1 ∧
      ∀ sh : Shell, ∃ result : Reply × Shell,
        sh.runChain o piped markup (stage.chainFrom fuel) = (result.1, result.2.countRun stage.name result.1) ∧
        result = if isBlocked o.denied inner.name inner.args inner.flags then
            (.error (stage.name ++ ": " ++ inner.name ++ ": command blocked for safety") .blocked,
              sh.count (.elevation true))
          else (sh.count (.elevation false)).elevate stage.name (runChain o piped markup (inner.chainFrom fuel')) := by
  obtain ⟨rest, hTokens, hSorted⟩ := Line.tokenize_eq_of_readStage? hStage
  obtain ⟨hName, rfl⟩ : stage.name = Utility.elevate.name ∧ rest = next :: more := by
    rw [hWords, List.cons.injEq] at hTokens
    exact ⟨hTokens.1.symm, hTokens.2.symm⟩
  have hTail : (Line.tokenize stage.raw).tail = next :: more := by rw [hWords, List.tail_cons]
  obtain ⟨inner, hInner, hRaw, hInnerWords⟩ := Line.exists_elevated? hTail hLast
  have hArgs : stage.args.isEmpty = false := by
    rw [List.isEmpty_eq_false_iff, show stage.args = _ from congrArg Prod.fst hSorted]
    exact Line.fst_sortWords_ne_nil hNext more
  cases fuel with
  | zero =>
    rw [hWords] at hFuel
    simp at hFuel
  | succ fuel =>
    refine ⟨inner, fuel, ?_, hInnerWords, ?_, ?_, fun sh => ?_⟩
    · rw [hRaw]
      exact hInner
    · rw [hRaw]
      exact fun c hc => Line.isBlank_getLast?_dropWord hc
    · rw [hWords] at hFuel
      rw [hInnerWords]
      exact Nat.le_of_succ_le_succ hFuel
    · have hChain : stage.chainFrom (fuel + 1) = stage :: inner.chainFrom fuel := by
        rw [Line.Stage.chainFrom, hName, beq_self_eq_true, if_pos rfl, hInner]
      obtain ⟨inners, hInners⟩ := Line.Stage.exists_chainFrom_eq fuel inner
      have hUtility : Utility.ofName? stage.name = some .elevate := by rw [hName, Utility.ofName?_name]
      refine ⟨_, ?_, rfl⟩
      rw [hChain, runChain, hUtility]
      simp only [Utility.isAdminOnly, Bool.false_and, Bool.false_eq_true, if_false, hInners, List.head?_cons, hArgs]

/-- The stages that elevate are counted by `k`; the command behind them stands in the words after theirs. -/
theorem runChain_blocked {k : Nat} {name : String} {rest : List String}
    (hLast : ∀ c, stage.raw.toList.getLast? = some c → Text.isBlank c = false)
    (hStage : Line.readStage? stage.raw = some stage) (hFuel : (Line.tokenize stage.raw).length ≤ fuel + 1)
    (hWords : Line.tokenize stage.raw = List.replicate (k + 1) Utility.elevate.name ++ name :: rest)
    (hName : name.toList.head? ≠ some '-')
    (hBlocked : isBlocked o.denied name (Line.sortWords [] [] rest).1 (Line.sortWords [] [] rest).2 = true)
    (sh : Shell) : Blocks sh.session (sh.runChain o piped markup (stage.chainFrom fuel)) := by
  induction k generalizing stage fuel sh with
  | zero =>
    obtain ⟨inner, fuel', hInner, hInnerWords, -, -, hRun⟩ :=
      exists_runChain_chainFrom hLast hStage hFuel hWords hName o piped markup
    obtain ⟨more, hTokens, hSorted⟩ := Line.tokenize_eq_of_readStage? hInner
    rw [hInnerWords, List.cons.injEq] at hTokens
    obtain ⟨rfl, rfl⟩ := hTokens
    rw [← hSorted] at hBlocked
    obtain ⟨result, hEq, hResult⟩ := hRun sh
    have hRefused : Blocks sh.session result := by
      rw [hResult, if_pos hBlocked]
      exact ⟨rfl, rfl, rfl⟩
    rw [hEq]
    exact hRefused.countRun stage.name
  | succ k ih =>
    have hNext : Utility.elevate.name.toList.head? ≠ some '-' := by decide
    obtain ⟨inner, fuel', hInner, hInnerWords, hInnerLast, hInnerFuel, hRun⟩ :=
      exists_runChain_chainFrom hLast hStage hFuel hWords hNext o piped markup
    obtain ⟨result, hEq, hResult⟩ := hRun sh
    have hRefused : Blocks sh.session result := by
      rw [hResult]
      split
      -- the elevating command itself may be one that is never run elevated
      · exact ⟨rfl, rfl, rfl⟩
      · have hElevated := ih hInnerLast hInner hInnerFuel hInnerWords
          { sh.count (.elevation false) with session := sh.session.enterElevation.2 }
        change Blocks (sh.count (.elevation false)).session _
        exact Blocks.elevate hElevated stage.name
    rw [hEq]
    exact hRefused.countRun stage.name

/-- However often a command that is never run elevated is elevated, and however that is written, it is refused as such,
and nothing in the session changes. -/
theorem runStage_blocked {o : ShellOptions} (hDenied : ∀ name ∈ o.denied, name.toList.head? ≠ some '-')
    {k : Nat} (hk : 1 ≤ k) {elevators command : String} {blank : Char} {inner : Line.Stage}
    (hElevators : Line.tokenize elevators = List.replicate k Utility.elevate.name)
    (hBare : Line.Quote.run .bare elevators.toList = .bare) (hBlank : Text.isBlank blank = true)
    (hLast : ∀ c, command.toList.getLast? = some c → Text.isBlank c = false)
    (hInner : Line.readStage? command = some inner)
    (hBlocked : isBlocked o.denied inner.name inner.args inner.flags = true) :
    ∃ stage, Line.readStage? (elevators ++ String.singleton blank ++ command) = some stage ∧
      ∀ (piped : Option String) (markup : Bool) (sh : Shell),
        (sh.runStage o piped markup stage).1.failed = true ∧
        (sh.runStage o piped markup stage).1.kind = some .blocked ∧
        (sh.runStage o piped markup stage).2.session = sh.session := by
  obtain ⟨rest, hCommand, hSorted⟩ := Line.tokenize_eq_of_readStage? hInner
  obtain ⟨k, rfl⟩ := Nat.exists_eq_add_of_le' hk
  have hText : (elevators ++ String.singleton blank ++ command).toList = elevators.toList ++ blank :: command.toList := by
    simp
  have hWords : Line.tokenize (elevators ++ String.singleton blank ++ command) =
      List.replicate (k + 1) Utility.elevate.name ++ inner.name :: rest := by
    rw [← hElevators, ← hCommand, Line.tokenize, hText, Line.words_append_separator hBare hBlank, List.map_append]
    rfl
  have hEnd : ∀ c, (elevators ++ String.singleton blank ++ command).toList.getLast? = some c → Text.isBlank c = false := by
    intro c hc
    have hSome : command.toList ≠ [] := by
      intro hNil
      rw [Line.tokenize, hNil] at hCommand
      cases hCommand
    obtain ⟨last, hCommandLast⟩ := Option.isSome_iff_exists.mp (List.getLast?_isSome.mpr hSome)
    rw [hText, List.getLast?_append, List.getLast?_cons, hCommandLast] at hc
    cases hc
    exact hLast last hCommandLast
  have hSome : Line.tokenize (elevators ++ String.singleton blank ++ command) ≠ [] := by
    rw [hWords]
    simp
  obtain ⟨stage, hStage, hRaw, -⟩ := Line.exists_readStage? hSome
  refine ⟨stage, hStage, fun piped markup sh => ?_⟩
  rw [← hRaw] at hWords hEnd hStage
  have hBlocks : Blocks sh.session (sh.runStage o piped markup stage) := by
    refine runChain_blocked hEnd hStage ?_ hWords (head?_ne_dash_of_isBlocked hDenied hBlocked) ?_ sh
    · exact Line.length_tokenize_le stage.raw
    · rw [← hSorted]
      exact hBlocked
  exact ⟨hBlocks.failed, hBlocks.kind, hBlocks.session⟩

/-- Removing the root, elevated three times and quoted in several ways, by a user who may not even elevate `id`. -/
theorem runStage_blocked_quoted :
    let o : ShellOptions := ⟨["id", "my tool"], 0⟩
    let inner : Line.Stage := ⟨"rm", ["/*"], [("f", .set), ("r", .set)], " r'm' -f -\"r\" '/*'"⟩
    (∀ name ∈ o.denied, name.toList.head? ≠ some '-') ∧
      Line.tokenize "  s'ud'o 'sudo'\t\"su\"do" = List.replicate 3 Utility.elevate.name ∧
      Line.readStage? " r'm' -f -\"r\" '/*'" = some inner ∧
      isBlocked o.denied inner.name inner.args inner.flags = true ∧
      ∃ stage, Line.readStage? ("  s'ud'o 'sudo'\t\"su\"do" ++ String.singleton '\n' ++ " r'm' -f -\"r\" '/*'") = some stage ∧
        ∀ (piped : Option String) (markup : Bool) (sh : Shell),
          (sh.runStage o piped markup stage).1.failed = true ∧
          (sh.runStage o piped markup stage).1.kind = some .blocked ∧
          (sh.runStage o piped markup stage).2.session = sh.session := by
  intro o inner
  have hDenied : ∀ name ∈ o.denied, name.toList.head? ≠ some '-' := by decide
  have hElevators : Line.tokenize "  s'ud'o 'sudo'\t\"su\"do" = List.replicate 3 Utility.elevate.name := by decide +kernel
  have hInner : Line.readStage? " r'm' -f -\"r\" '/*'" = some inner := by decide +kernel
  have hBlocked : isBlocked o.denied inner.name inner.args inner.flags = true := by decide +kernel
  have hLast : ∀ c, " r'm' -f -\"r\" '/*'".toList.getLast? = some c → Text.isBlank c = false := by
    have hEnd : " r'm' -f -\"r\" '/*'".toList.getLast? = some '\x27' := by decide +kernel
    intro c hc
    rw [hEnd] at hc
    cases hc
    decide
  refine ⟨hDenied, hElevators, hInner, hBlocked, ?_⟩
  exact runStage_blocked hDenied (by decide) hElevators (by decide +kernel) (by decide) hLast hInner hBlocked

end Shell

end VirtualShell
