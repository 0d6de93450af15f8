import VirtualShell.Proofs.Line.Redirected

/-!
# Characters outside of quotes

`bare` picks out of a text the characters that are neither quoted nor escaped. Only these can be pipes and
redirect operators. Trimming a text takes nothing but blanks from them, and opens or closes no quotation.
-/
namespace VirtualShell.Line
set_option autoImplicit false

/-- The characters that stand outside of quotes and escapes in a text that begins in state `q`. -/
def bareFrom (q : Quote) : List Char → List Char
  | [] => []
  | c :: cs => if q == .bare then c :: bareFrom (q.step c) cs else bareFrom (q.step c) cs

def bare (cs : List Char) : List Char := bareFrom .bare cs

variable {q : Quote} {c : Char} {cs ds blanks : List Char}

theorem Quote.run_append (q : Quote) (cs ds : List Char) : q.run (cs ++ ds) = (q.run cs).run ds := List.foldl_append

theorem bareFrom_append (q : Quote) (cs ds : List Char) :
    bareFrom q (cs ++ ds) = bareFrom q cs ++ bareFrom (q.run cs) ds := by
  induction cs generalizing q with
  | nil => rfl
  | cons c cs ih =>
    show bareFrom q (c :: (cs ++ ds)) = _
    rw [bareFrom, bareFrom, ih]
    split <;> rfl

theorem bareFrom_sublist (q : Quote) (cs : List Char) : (bareFrom q cs).Sublist cs := by
  induction cs generalizing q with
  | nil => exact List.Sublist.slnil
  | cons c cs ih =>
    rw [bareFrom]
    split
    · exact (ih _).cons_cons c
    · exact (ih _).cons c

theorem not_bare_of_not_mem (h : c ∉ bareFrom q (c :: cs)) : q ≠ .bare := by
  rintro rfl
  exact h List.mem_cons_self

theorem not_mem_bareFrom_step {d : Char} (h : d ∉ bareFrom q (c :: cs)) : d ∉ bareFrom (q.step c) cs := by
  rw [bareFrom] at h
  split at h
  · exact fun hd => h (List.mem_cons_of_mem c hd)
  · exact h

theorem run_blanks (h : blanks.all Text.isBlank = true) : Quote.run .bare blanks = .bare := (shows_blanks h).run_eq

/-- Blanks open and close no quotation. -/
theorem isOpen_run_blanks (q : Quote) (h : blanks.all Text.isBlank = true) : (q.run blanks).isOpen = q.isOpen := by
  induction blanks generalizing q with
  | nil => rfl
  | cons b blanks ih =>
    rw [List.all_cons, Bool.and_eq_true] at h
    obtain ⟨hBackslash, hSingle, hDouble, -⟩ := isBlank_mark h.1
    refine (ih (q.step b) h.2).trans ?_
    cases q <;> simp [Quote.step, Quote.isOpen, hBackslash, hSingle, hDouble]

theorem count_bareFrom_blanks (q : Quote) (hc : Text.isBlank c = false) (h : blanks.all Text.isBlank = true) :
    (bareFrom q blanks).count c = 0 := by
  rw [List.count_eq_zero]
  intro hMem
  have hBlank := List.all_eq_true.mp h c ((bareFrom_sublist q blanks).subset hMem)
  rw [hc] at hBlank
  cases hBlank

theorem all_takeWhile_reverse (cs : List Char) : (cs.takeWhile Text.isBlank).reverse.all Text.isBlank = true := by
  rw [List.all_reverse]
  exact List.all_takeWhile

/-- A text ends with the blanks that trimming takes off its end. -/
theorem exists_of_trimRight (cs : List Char) :
    ∃ blanks, blanks.all Text.isBlank = true ∧ cs = Text.trimRight cs ++ blanks :=
  ⟨_, all_takeWhile_reverse cs.reverse, (trimRight_append_takeWhile cs).symm⟩

theorem isOpen_run_trimRight (q : Quote) (cs : List Char) :
    (q.run (Text.trimRight cs)).isOpen = (q.run cs).isOpen := by
  obtain ⟨blanks, hBlanks, hEq⟩ := exists_of_trimRight cs
  calc (q.run (Text.trimRight cs)).isOpen
    _ = (q.run (Text.trimRight cs ++ blanks)).isOpen := by rw [Quote.run_append, isOpen_run_blanks _ hBlanks]
    _ = (q.run cs).isOpen := by rw [← hEq]

theorem isOpen_run_trim (cs : List Char) : (Quote.run .bare (Text.trim cs)).isOpen = (Quote.run .bare cs).isOpen := by
  obtain ⟨before, after, hBefore, hAfter, hEq⟩ := exists_of_trim cs
  calc (Quote.run .bare (Text.trim cs)).isOpen
    _ = (Quote.run .bare (before ++ (Text.trim cs ++ after))).isOpen := by
      rw [Quote.run_append, run_blanks hBefore, Quote.run_append, isOpen_run_blanks _ hAfter]
    _ = (Quote.run .bare cs).isOpen := by rw [← hEq]

theorem isBalanced_trim (cs : List Char) : isBalanced (Text.trim cs) = isBalanced cs := by
  rw [isBalanced, isBalanced, isOpen_run_trim]

theorem isBalanced_iff : isBalanced cs = true ↔ (Quote.run .bare cs).isOpen = false := by
  rw [isBalanced, Bool.not_eq_true']

theorem count_bareFrom_trimRight (q : Quote) (hc : Text.isBlank c = false) (cs : List Char) :
    (bareFrom q (Text.trimRight cs)).count c = (bareFrom q cs).count c := by
  obtain ⟨blanks, hBlanks, hEq⟩ := exists_of_trimRight cs
  calc (bareFrom q (Text.trimRight cs)).count c
    _ = (bareFrom q (Text.trimRight cs ++ blanks)).count c := by
      rw [bareFrom_append, List.count_append, count_bareFrom_blanks _ hc hBlanks, Nat.add_zero]
    _ = (bareFrom q cs).count c := by rw [← hEq]

theorem count_bare_trim (hc : Text.isBlank c = false) (cs : List Char) :
    (bare (Text.trim cs)).count c = (bare cs).count c := by
  obtain ⟨before, after, hBefore, hAfter, hEq⟩ := exists_of_trim cs
  calc (bare (Text.trim cs)).count c
    _ = (bare (before ++ (Text.trim cs ++ after))).count c := by
      rw [bare, bare, bareFrom_append, run_blanks hBefore, bareFrom_append, List.count_append, List.count_append,
        count_bareFrom_blanks _ hc hBefore, count_bareFrom_blanks _ hc hAfter, Nat.zero_add, Nat.add_zero]
    _ = (bare cs).count c := by rw [← hEq]

theorem not_mem_bare_trim (hc : Text.isBlank c = false) : c ∉ bare (Text.trim cs) ↔ c ∉ bare cs := by
  rw [← List.count_eq_zero, ← List.count_eq_zero, count_bare_trim hc]

theorem isBlank_pipe : Text.isBlank '|' = false := by decide

theorem splitPipesFrom_cons (h : ¬(q == .bare && c == '|') = true) (part cs : List Char) :
    splitPipesFrom q part (c :: cs) = splitPipesFrom (q.step c) (c :: part) cs := by
  rw [splitPipesFrom, if_neg h]

theorem splitPipesFrom_pipe (part cs : List Char) :
    splitPipesFrom .bare part ('|' :: cs) = part.reverse :: splitPipesFrom .bare [] cs := rfl

theorem splitPipesFrom_ne_nil (q : Quote) (part cs : List Char) : splitPipesFrom q part cs ≠ [] := by
  induction cs generalizing q part with
  | nil => exact List.cons_ne_nil _ _
  | cons c cs ih =>
    rw [splitPipesFrom]
    split
    · exact List.cons_ne_nil _ _
    · exact ih _ _

theorem eq_of_isPipe (h : (q == .bare && c == '|') = true) : q = .bare ∧ c = '|' := by
  simpa using h

/-- There is one part more than there are pipes. -/
theorem length_splitPipesFrom (q : Quote) (part cs : List Char) :
    (splitPipesFrom q part cs).length = (bareFrom q cs).count '|' + 1 := by
  induction cs generalizing q part with
  | nil => rfl
  | cons c cs ih =>
    by_cases h : (q == .bare && c == '|') = true
    · obtain ⟨rfl, rfl⟩ := eq_of_isPipe h
      rw [splitPipesFrom_pipe, List.length_cons, ih]
      show _ = ('|' :: bareFrom .bare cs).count '|' + 1
      rw [List.count_cons_self]
    · rw [splitPipesFrom_cons h, ih, bareFrom]
      split
      · rename_i hq
        have hc : c ≠ '|' := by
          rintro rfl
          exact h (by rw [hq]; rfl)
        rw [List.count_cons_of_ne hc]
      · rfl

theorem splitPipesFrom_eq_of_not_mem (h : '|' ∉ bareFrom q cs) (part : List Char) :
    splitPipesFrom q part cs = [part.reverse ++ cs] := by
  induction cs generalizing q part with
  | nil => rw [splitPipesFrom, List.append_nil]
  | cons c cs ih =>
    have hPipe : ¬(q == .bare && c == '|') = true := by
      intro hBoth
      obtain ⟨rfl, rfl⟩ := eq_of_isPipe hBoth
      exact not_bare_of_not_mem h rfl
    rw [splitPipesFrom_cons hPipe, ih (not_mem_bareFrom_step h), List.reverse_cons, List.append_assoc]
    rfl

theorem splitPipes_eq_of_not_mem (h : '|' ∉ bare cs) : splitPipes cs = [cs] := splitPipesFrom_eq_of_not_mem h []

theorem intercalate_splitPipesFrom (q : Quote) (part cs : List Char) :
    ['|'].intercalate (splitPipesFrom q part cs) = part.reverse ++ cs := by
  induction cs generalizing q part with
  | nil => rw [splitPipesFrom, List.intercalate_singleton, List.append_nil]
  | cons c cs ih =>
    by_cases h : (q == .bare && c == '|') = true
    · obtain ⟨rfl, rfl⟩ := eq_of_isPipe h
      obtain ⟨first, rest, hParts⟩ := List.exists_cons_of_ne_nil (splitPipesFrom_ne_nil .bare [] cs)
      have hTail := ih .bare []
      rw [hParts] at hTail
      rw [splitPipesFrom_pipe, hParts, List.intercalate_cons_cons, hTail, List.append_assoc]
      rfl
    · rw [splitPipesFrom_cons h, ih, List.reverse_cons, List.append_assoc]
      rfl

/-- The parts of a text are outside of quotes at their ends and have no pipes of their own. -/
theorem part_of_mem_splitPipesFrom {part piece : List Char} (hPart : Quote.run .bare part.reverse = q)
    (hPipe : '|' ∉ bare part.reverse) (hEnd : (q.run cs).isOpen = false) (h : piece ∈ splitPipesFrom q part cs) :
    (Quote.run .bare piece).isOpen = false ∧ '|' ∉ bare piece := by
  induction cs generalizing q part with
  | nil =>
    rw [List.mem_singleton.mp h, hPart]
    exact ⟨hEnd, hPipe⟩
  | cons c cs ih =>
    by_cases hStop : (q == .bare && c == '|') = true
    · obtain ⟨rfl, rfl⟩ := eq_of_isPipe hStop
      rw [splitPipesFrom_pipe] at h
      rcases List.mem_cons.mp h with rfl | h
      · rw [hPart]
        exact ⟨rfl, hPipe⟩
      · exact @ih .bare [] rfl List.not_mem_nil hEnd h
    · rw [splitPipesFrom_cons hStop] at h
      refine ih ?_ ?_ hEnd h
      · rw [List.reverse_cons, Quote.run_append, hPart]
        rfl
      · rw [List.reverse_cons, bare, bareFrom_append, List.mem_append, hPart]
        rintro (hMem | hMem)
        · exact hPipe hMem
        · rw [bareFrom] at hMem
          split at hMem
          · rename_i hq
            obtain rfl := List.mem_singleton.mp hMem
            exact hStop (by rw [hq]; rfl)
          · cases hMem

theorem part_of_mem_splitPipes {piece : List Char} (h : isBalanced cs = true) (hMem : piece ∈ splitPipes cs) :
    isBalanced piece = true ∧ '|' ∉ bare piece := by
  have hNone : '|' ∉ bare [].reverse := List.not_mem_nil
  obtain ⟨hOpen, hPipe⟩ := part_of_mem_splitPipesFrom rfl hNone (isBalanced_iff.mp h) hMem
  exact ⟨isBalanced_iff.mpr hOpen, hPipe⟩

theorem isBlank_operator : Text.isBlank '>' = false := by decide

theorem eq_of_isOperator (h : (q == .bare && c == '>') = true) : q = .bare ∧ c = '>' := by
  simpa using h

theorem not_isOperator_of_isBlank (h : Text.isBlank c = true) : ¬(q == .bare && c == '>') = true := by
  intro hOperator
  exact (isBlank_mark h).2.2.2 (eq_of_isOperator hOperator).2

theorem lastOperatorFrom_eq_none_iff {before : List Char} :
    lastOperatorFrom q before cs = none ↔ '>' ∉ bareFrom q cs := by
  fun_induction lastOperatorFrom q before cs with
  | case1 q before => exact ⟨fun _ => List.not_mem_nil, fun _ => rfl⟩
  | case2 q before c hOperator rest ih =>
    obtain ⟨rfl, rfl⟩ := eq_of_isOperator hOperator
    exact ⟨fun h => absurd (Option.or_eq_none_iff.mp h).2 (Option.some_ne_none _), fun h => absurd List.mem_cons_self h⟩
  | case3 q before c hOperator cs hSingle ih =>
    obtain ⟨rfl, rfl⟩ := eq_of_isOperator hOperator
    exact ⟨fun h => absurd (Option.or_eq_none_iff.mp h).2 (Option.some_ne_none _), fun h => absurd List.mem_cons_self h⟩
  | case4 q before c cs hOther ih =>
    rw [ih, bareFrom]
    split
    · rename_i hq
      have hc : '>' ≠ c := by
        rintro rfl
        exact hOther (by rw [hq]; rfl)
      rw [List.mem_cons, or_iff_right hc]
    · rfl

theorem lastOperator_eq_none_iff : lastOperator cs = none ↔ '>' ∉ bare cs := lastOperatorFrom_eq_none_iff

end VirtualShell.Line
