import VirtualShell.Proofs.Line.Spelling
import VirtualShell.Proofs.Line.Writing

/-!
# Redirects behind a line

A line that stands for commands is outside of quotes at its end, but a backslash may be its last character.
Behind a blank it is outside in any case, so that a redirect that is written behind the line is the last one
and takes nothing away from the commands.
-/
namespace VirtualShell.Line
set_option autoImplicit false

namespace ParsedLine

def isPlain : ParsedLine → Bool
  | .command _ none | .pipeline _ _ none => true
  | _ => false

inductive Redirects (r : Redirect) : ParsedLine → ParsedLine → Prop where
  | command (stage : Stage) : Redirects r (.command stage none) (.command stage (some r))
  | pipeline (stages : List Stage) (raw raw' : String) :
      Redirects r (.pipeline stages raw none) (.pipeline stages raw' (some r))

end ParsedLine

variable {p : Char → Prop} {cs ds blanks : List Char}

theorem isBlank_mark {c : Char} (h : Text.isBlank c = true) : c ≠ '\x5c' ∧ c ≠ '\x27' ∧ c ≠ '\x22' ∧ c ≠ '>' := by
  refine ⟨?_, ?_, ?_, ?_⟩
  all_goals
    rintro rfl
    revert h
    decide

theorem step_blank {c : Char} (h : Text.isBlank c = true) : Quote.bare.step c = .bare := by
  obtain ⟨hBackslash, hSingle, hDouble, -⟩ := isBlank_mark h
  simp [Quote.step, hBackslash, hSingle, hDouble]

theorem shows_blanks (h : blanks.all Text.isBlank = true) : Shows (· ≠ '>') .bare blanks := by
  induction blanks with
  | nil => rfl
  | cons b blanks ih =>
    rw [List.all_cons, Bool.and_eq_true] at h
    refine ⟨fun _ => (isBlank_mark h.1).2.2.2, ?_⟩
    rw [step_blank h.1]
    exact ih h.2

/-- Blanks also take back what a backslash has begun. -/
theorem shows_blanks_of_not_isOpen {q : Quote} (hq : q.isOpen = false) (h : blanks.all Text.isBlank = true)
    (hSome : blanks ≠ []) : Shows (· ≠ '>') q blanks := by
  cases blanks with
  | nil => exact absurd rfl hSome
  | cons b blanks =>
    rw [List.all_cons, Bool.and_eq_true] at h
    have hStep : q.step b = .bare := by
      cases q with
      | bare => exact step_blank h.1
      | bareEscape => rfl
      | single | double | doubleEscape => cases hq
    refine ⟨fun _ => (isBlank_mark h.1).2.2.2, ?_⟩
    rw [hStep]
    exact shows_blanks h.2

/-- A text without an operator, followed by one that shows none. -/
theorem shows_append_of_lastOperatorFrom {q : Quote} {before : List Char} (h : lastOperatorFrom q before cs = none)
    (hd : Shows (· ≠ '>') (q.run cs) ds) : Shows (· ≠ '>') q (cs ++ ds) := by
  fun_induction lastOperatorFrom q before cs with
  | case1 q before => exact hd
  | case2 => cases (Option.or_eq_none_iff.mp h).2
  | case3 => cases (Option.or_eq_none_iff.mp h).2
  | case4 q before c cs hOther ih =>
    refine ⟨?_, ih h hd⟩
    rintro rfl rfl
    exact hOther rfl

theorem trimRight_append_takeWhile (cs : List Char) :
    Text.trimRight cs ++ (cs.reverse.takeWhile Text.isBlank).reverse = cs := by
  rw [Text.trimRight, ← List.reverse_append, List.takeWhile_append_dropWhile, List.reverse_reverse]

/-- A line around what is left of it when it is trimmed. -/
theorem exists_of_trim (cs : List Char) : ∃ before after, before.all Text.isBlank = true ∧
    after.all Text.isBlank = true ∧ cs = before ++ (Text.trim cs ++ after) := by
  refine ⟨cs.takeWhile Text.isBlank, ((Text.trimLeft cs).reverse.takeWhile Text.isBlank).reverse,
    List.all_takeWhile, ?_, ?_⟩
  · rw [List.all_reverse]
    exact List.all_takeWhile
  · rw [Text.trim, trimRight_append_takeWhile]
    exact List.takeWhile_append_dropWhile.symm

theorem isBlank_head?_dropWhile {c : Char} (h : (cs.dropWhile Text.isBlank).head? = some c) :
    Text.isBlank c = false := by
  have hHead := List.head?_dropWhile_not Text.isBlank cs
  rw [h] at hHead
  exact hHead

theorem framed_trim (h : Text.trim cs ≠ []) : Framed (Text.trim cs) := by
  constructor
  · obtain ⟨c, rest, hFirst⟩ := List.exists_cons_of_ne_nil h
    have hLeft := trimRight_append_takeWhile (Text.trimLeft cs)
    rw [← Text.trim, hFirst] at hLeft
    have hHead : (cs.dropWhile Text.isBlank).head? = some c := (congrArg List.head? hLeft).symm
    exact ⟨c, congrArg List.head? hFirst, isBlank_head?_dropWhile hHead⟩
  · obtain ⟨c, hLast⟩ := List.getLast?_isSome.mpr h |> Option.isSome_iff_exists.mp
    refine ⟨c, hLast, ?_⟩
    rw [Text.trim, Text.trimRight, List.getLast?_reverse] at hLast
    exact isBlank_head?_dropWhile hLast

theorem splitLine_plain {command : List Char} (h : splitLine cs = .ok (command, none)) :
    isBalanced cs = true ∧ lastOperator cs = none ∧ command = cs := by
  unfold splitLine at h
  split at h
  · cases h
  · rename_i hBalanced
    obtain ⟨extracted, hExtract, h⟩ := Result.exists_of_bind_ok h
    cases extracted with
    | some r =>
      obtain ⟨found, -, h⟩ := Result.exists_of_bind_ok h
      cases h
    | none =>
      cases h
      refine ⟨by simpa using hBalanced, ?_, rfl⟩
      unfold extractRedirect at hExtract
      split at hExtract
      · assumption
      · split at hExtract <;> cases hExtract

theorem splitLine_append {command : List Char} (h : splitLine cs = .ok (command, none)) (hFramed : Framed cs)
    (hBlanks : blanks.all Text.isBlank = true) (hSome : blanks ≠ []) (r : Redirect) :
    splitLine (cs ++ blanks ++ r.chars) = .ok (command, some r) := by
  obtain ⟨hBalanced, hOperator, rfl⟩ := splitLine_plain h
  have hQuote : (Quote.run .bare command).isOpen = false := by simpa [isBalanced] using hBalanced
  have hShows : Shows (· ≠ '>') .bare (command ++ blanks) :=
    shows_append_of_lastOperatorFrom hOperator (shows_blanks_of_not_isOpen hQuote hBlanks hSome)
  have hLine := (hShows.mono (r := fun _ => True) fun _ _ => trivial).append (shows_chars r)
  have hExtract := extractRedirect_append hShows (fun hSame => hSame rfl) hFramed hBlanks r
  have hDrop : dropRedirects command.length command = .ok command := by
    cases command.length with
    | zero => rfl
    | succ fuel =>
      rw [dropRedirects, extractRedirect, hOperator]
      rfl
  rw [splitLine, isBalanced, hLine.run_eq, hExtract]
  show (dropRedirects command.length command >>= fun command => .ok (command, some r)) = _
  rw [hDrop]
  rfl

/-- What was read from the text of a command alone does not depend on the line around it. -/
theorem readLine_append {line line' : String} {parsed : ParsedLine} (h : readLine line cs = .ok parsed)
    (hPlain : parsed.isPlain = true) (hFramed : Framed cs) (hBlanks : blanks.all Text.isBlank = true) (hSome : blanks ≠ [])
    (r : Redirect) : ∃ redirected, readLine line' (cs ++ blanks ++ r.chars) = .ok redirected ∧
      parsed.Redirects r redirected := by
  obtain ⟨⟨command, redirect⟩, hSplit, hRead⟩ := Result.exists_of_bind_ok h
  have hNone : redirect = none := by
    cases redirect with
    | none => rfl
    | some r' =>
      dsimp only at hRead
      split at hRead
      · obtain ⟨stages, -, hRead⟩ := Result.exists_of_bind_ok hRead
        cases hRead
        cases hPlain
      · split at hRead
        · cases hRead
          cases hPlain
        · cases hRead
          cases hPlain
  subst hNone
  rw [readLine, splitLine_append hSplit hFramed hBlanks hSome r, Result.ok_bind]
  dsimp only at hRead ⊢
  split at hRead
  · rename_i first second rest hPipes
    obtain ⟨stages, hStages, hRead⟩ := Result.exists_of_bind_ok hRead
    cases hRead
    rw [hStages]
    exact ⟨_, rfl, .pipeline _ _ _⟩
  · split at hRead
    · rename_i stage hStage
      cases hRead
      exact ⟨_, rfl, .command stage⟩
    · cases hRead
      cases hPlain

/-- A redirect behind a plain line binds all of it, and leaves its stages as they are. -/
theorem parse_append_writeRedirect {line : String} (h : (parse line).isPlain = true) (r : Redirect) :
    ParsedLine.Redirects r (parse line) (parse (line ++ writeRedirect (some r))) := by
  obtain ⟨before, after, hBefore, hAfter, hLine⟩ := exists_of_trim line.toList
  generalize hTrim : Text.trim line.toList = cs at hLine
  have hSome : cs ≠ [] := by
    rintro rfl
    rw [parse, hTrim] at h
    cases h
  have hFramed : Framed cs := hTrim ▸ framed_trim (hTrim ▸ hSome)
  have hRead : readLine line cs = .ok (parse line) := by
    cases hRead : readLine line cs with
    | ok parsed => rw [parse_eq_of_trim hTrim hFramed hRead]
    | error fault =>
      have hParse : parse line = .error fault line := by
        rw [parse, hTrim]
        cases cs with
        | nil => exact absurd rfl hSome
        | cons c cs => simp only [hRead]
      rw [hParse] at h
      cases h
  -- the blanks that were trimmed off, and the one before the operator
  have hBlanks : (after ++ [' ']).all Text.isBlank = true := by
    rw [List.all_append, hAfter]
    decide
  obtain ⟨redirected, hRedirected, hSame⟩ := readLine_append hRead h hFramed hBlanks (by simp) r
  have hWhole : Framed (cs ++ (after ++ [' ']) ++ r.chars) := by
    have hEnds := hFramed.append (framed_quoteChars r.target.toList)
      (after ++ ' ' :: (operatorChars r.append ++ [' ']))
    simpa [Redirect.chars] using hEnds
  have hText : Text.trim (line ++ writeRedirect (some r)).toList = cs ++ (after ++ [' ']) ++ r.chars := by
    have hTrimmed := hWhole.trim_append hBefore (List.all_nil (f := Text.isBlank))
    rw [← hTrimmed, String.toList_append, toList_writeRedirect, redirectChars_some, hLine]
    simp
  rw [parse_eq_of_trim hText hWhole hRedirected]
  exact hSame

end VirtualShell.Line
