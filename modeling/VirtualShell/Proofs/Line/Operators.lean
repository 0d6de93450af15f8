import VirtualShell.Proofs.Line.Leftover

/-!
# Redirect operators of a line

The operators outside of quotes divide a text into sections. Taking the last redirect out of the text removes
its last section and the operator before it, and glues what stands behind the target to the section before.
What `glue` and the trims take away or put in are blanks, so that no reader of the line sees other quotations,
pipes or operators than there were: `scanners_agree`.
-/
namespace VirtualShell.Line
set_option autoImplicit false

variable {q : Quote} {b c : Char} {cs ds blanks leftover : List Char}

/-- The texts before, between and behind the redirect operators. Both halves of `>>` make one operator. -/
def sectionsFrom (q : Quote) : List Char → List (List Char)
  | [] => [[]]
  | c :: cs =>
    if q == .bare && c == '>' then
      match cs with
      | '>' :: rest => [] :: sectionsFrom .bare rest
      | cs => [] :: sectionsFrom .bare cs
    else (sectionsFrom (q.step c) cs).modifyHead (c :: ·)

def sections (cs : List Char) : List (List Char) := sectionsFrom .bare cs

def operatorCount (cs : List Char) : Nat := (sections cs).tail.length

theorem sectionsFrom_double (rest : List Char) :
    sectionsFrom .bare ('>' :: '>' :: rest) = [] :: sectionsFrom .bare rest := rfl

theorem sectionsFrom_single (h : cs.head? ≠ some '>') : sectionsFrom .bare ('>' :: cs) = [] :: sectionsFrom .bare cs := by
  cases cs with
  | nil => rfl
  | cons c cs =>
    have hc : c ≠ '>' := fun hc => h (congrArg some hc)
    simp [sectionsFrom, hc]

/-- What begins with an operator alone does not go on with another half of one. -/
theorem head?_ne_of_single (h : ∀ rest, cs = '>' :: rest → False) : cs.head? ≠ some '>' := by
  cases cs with
  | nil => exact nofun
  | cons c cs =>
    rintro ⟨⟩
    exact h cs rfl

theorem sectionsFrom_cons (h : ¬(q == .bare && c == '>') = true) (cs : List Char) :
    sectionsFrom q (c :: cs) = (sectionsFrom (q.step c) cs).modifyHead (c :: ·) := by
  rw [sectionsFrom.eq_def]
  exact if_neg h

theorem sectionsFrom_ne_nil (q : Quote) (cs : List Char) : sectionsFrom q cs ≠ [] := by
  fun_induction sectionsFrom q cs with
  | case1 | case2 | case3 => exact List.cons_ne_nil _ _
  | case4 q c cs hOther ih => rwa [ne_eq, List.modifyHead_eq_nil_iff]

theorem sectionsFrom_eq_of_not_mem (h : '>' ∉ bareFrom q cs) : sectionsFrom q cs = [cs] := by
  induction cs generalizing q with
  | nil => rfl
  | cons c cs ih =>
    have hOther : ¬(q == .bare && c == '>') = true := by
      intro hBoth
      obtain ⟨rfl, rfl⟩ := eq_of_isOperator hBoth
      exact not_bare_of_not_mem h rfl
    rw [sectionsFrom_cons hOther, ih (not_mem_bareFrom_step h)]
    rfl

/-- The last section is the end of the text, and goes on with what stands behind the text up to an operator. -/
theorem exists_sectionsFrom_append (q : Quote) (cs : List Char) :
    ∃ init last before, cs = before ++ last ∧ (init = [] → before = []) ∧
      (init ≠ [] → Quote.run .bare last = q.run cs) ∧
      ∀ ds, '>' ∉ bareFrom (q.run cs) ds → sectionsFrom q (cs ++ ds) = init ++ [last ++ ds] := by
  fun_induction sectionsFrom q cs with
  | case1 q => exact ⟨[], [], [], rfl, fun _ => rfl, absurd rfl, fun ds h => sectionsFrom_eq_of_not_mem h⟩
  | case2 q c hOperator rest ih =>
    obtain ⟨rfl, rfl⟩ := eq_of_isOperator hOperator
    obtain ⟨init, last, before, hRest, hFirst, hRun, hEq⟩ := ih
    refine ⟨[] :: init, last, '>' :: '>' :: before, by rw [hRest]; rfl, nofun, fun _ => ?_, fun ds h => ?_⟩
    · by_cases hInit : init = []
      · rw [hRest, hFirst hInit]
        rfl
      · exact hRun hInit
    · exact congrArg ([] :: ·) (hEq ds h)
  | case3 q c hOperator cs hSingle ih =>
    obtain ⟨rfl, rfl⟩ := eq_of_isOperator hOperator
    obtain ⟨init, last, before, hCs, hFirst, hRun, hEq⟩ := ih
    refine ⟨[] :: init, last, '>' :: before, congrArg ('>' :: ·) hCs, nofun, fun _ => ?_, fun ds h => ?_⟩
    · by_cases hInit : init = []
      · rw [hCs, hFirst hInit]
        rfl
      · exact hRun hInit
    -- nothing that follows makes this operator the first half of another
    · have hNext : (cs ++ ds).head? ≠ some '>' := by
        cases cs with
        | nil =>
          cases ds with
          | nil => exact nofun
          | cons d ds =>
            rintro ⟨⟩
            exact h List.mem_cons_self
        | cons c cs => exact fun h => head?_ne_of_single hSingle h
      rw [List.cons_append, sectionsFrom_single hNext, hEq ds h]
      rfl
  | case4 q c cs hOther ih =>
    obtain ⟨init, last, before, hCs, hFirst, hRun, hEq⟩ := ih
    cases init with
    | nil =>
      rw [hFirst rfl, List.nil_append] at hCs
      refine ⟨[], c :: cs, [], rfl, fun _ => rfl, absurd rfl, fun ds h => ?_⟩
      rw [List.cons_append, sectionsFrom_cons hOther, hEq ds h, hCs]
      rfl
    | cons first init =>
      refine ⟨(c :: first) :: init, last, c :: before, congrArg (c :: ·) hCs, nofun, fun _ => hRun (List.cons_ne_nil _ _),
        fun ds h => ?_⟩
      rw [List.cons_append, sectionsFrom_cons hOther, hEq ds h]
      rfl

theorem sections_append (cs : List Char) : ∃ init last before, cs = before ++ last ∧
    Quote.run .bare last = Quote.run .bare cs ∧
    ∀ ds, '>' ∉ bareFrom (Quote.run .bare cs) ds → sections (cs ++ ds) = init ++ [last ++ ds] := by
  obtain ⟨init, last, before, hCs, hFirst, hRun, hEq⟩ := exists_sectionsFrom_append .bare cs
  refine ⟨init, last, before, hCs, ?_, hEq⟩
  by_cases hInit : init = []
  · rw [hCs, hFirst hInit, List.nil_append]
  · exact hRun hInit

theorem not_mem_bareFrom_blanks (q : Quote) (h : blanks.all Text.isBlank = true) : '>' ∉ bareFrom q blanks := by
  rw [← List.count_eq_zero]
  exact count_bareFrom_blanks q isBlank_operator h

theorem tail_sections_blanks_append (h : blanks.all Text.isBlank = true) (cs : List Char) :
    (sections (blanks ++ cs)).tail = (sections cs).tail := by
  induction blanks with
  | nil => rfl
  | cons b blanks ih =>
    rw [List.all_cons, Bool.and_eq_true] at h
    rw [List.cons_append, sections, sectionsFrom_cons (not_isOperator_of_isBlank h.1), step_blank h.1, List.tail_modifyHead]
    exact ih h.2

theorem tail_sections_trimLeft (cs : List Char) : (sections (Text.trimLeft cs)).tail = (sections cs).tail := by
  have hTail := tail_sections_blanks_append (List.all_takeWhile (p := Text.isBlank) (l := cs)) (Text.trimLeft cs)
  rwa [Text.trimLeft, List.takeWhile_append_dropWhile, eq_comm] at hTail

/-- A text that ends without blanks has the sections of the trimmed text, up to the blanks before the first. -/
theorem tail_sections_trim (hLast : ∀ c, cs.getLast? = some c → Text.isBlank c = false) :
    (sections (Text.trim cs)).tail = (sections cs).tail := by
  have hLeft : ∀ c, (Text.trimLeft cs).getLast? = some c → Text.isBlank c = false := by
    intro c hc
    apply hLast
    rw [← List.takeWhile_append_dropWhile (p := Text.isBlank) (l := cs), List.getLast?_append, ← Text.trimLeft, hc]
    rfl
  rw [Text.trim, trimRight_eq_self hLeft, tail_sections_trimLeft]

/-- Trimming a text trims its last section. -/
theorem exists_sections_trimRight (cs : List Char) : ∃ init last, sections cs = init ++ [last] ∧
    Quote.run .bare last = Quote.run .bare cs ∧
    ∀ ds, '>' ∉ bareFrom (Quote.run .bare (Text.trimRight cs)) ds →
      sections (Text.trimRight cs ++ ds) = init ++ [Text.trimRight last ++ ds] := by
  obtain ⟨blanks, hBlanks, hCs⟩ := exists_of_trimRight cs
  obtain ⟨init, last, before, hTrimmed, hRun, hEq⟩ := sections_append (Text.trimRight cs)
  have hLast : Text.trimRight (last ++ blanks) = last := by
    refine trimRight_append_blanks (fun c hc => ?_) hBlanks
    have hEnd : (Text.trimRight cs).getLast? = some c := by
      rw [hTrimmed, List.getLast?_append, hc]
      rfl
    exact isBlank_getLast?_trimRight hEnd
  refine ⟨init, last ++ blanks, ?_, ?_, ?_⟩
  · rw [← hEq blanks (not_mem_bareFrom_blanks _ hBlanks), ← hCs]
  · rw [Quote.run_append, hRun, ← Quote.run_append, ← hCs]
  · rwa [hLast]

/-- Gluing something to a text without another operator glues it to the last section. -/
theorem exists_sections_glue (h : Quote.run .bare cs = .bare) (hLeftover : '>' ∉ bare leftover) :
    ∃ init last, sections cs = init ++ [last] ∧ Quote.run .bare last = .bare ∧
      sections (glue cs leftover) = init ++ [glue last leftover] := by
  obtain ⟨init, last, hSections, hRun, hEq⟩ := exists_sections_trimRight cs
  refine ⟨init, last, hSections, hRun.trans h, ?_⟩
  by_cases hNil : leftover = []
  · rw [hNil, glue_nil, glue_nil, ← List.append_nil (Text.trimRight cs), hEq [] List.not_mem_nil, List.append_nil]
  · rw [glue_of_ne_nil hNil, glue_of_ne_nil hNil]
    apply hEq
    rw [← List.count_eq_zero, bareFrom_blank_cons (run_trimRight h) (by decide) isBlank_operator]
    exact List.count_eq_zero.mpr hLeftover

theorem getLast?_tail_sections {init : List (List Char)} {before last : List Char}
    (h : sections cs = init ++ [before, last]) : (sections cs).tail.getLast? = some last := by
  rw [h]
  cases init <;> simp

/-- The last operator of a text begins its last section. -/
theorem exists_of_lastOperatorFrom {before : List Char} {split : OperatorSplit}
    (h : lastOperatorFrom q before cs = some split) :
    ∃ ds, split.before = before.reverse ++ ds ∧ cs = ds ++ (operatorChars split.append ++ split.after) ∧
      q.run ds = .bare ∧ '>' ∉ bare split.after ∧ sectionsFrom q cs = sectionsFrom q ds ++ [split.after] := by
  fun_induction lastOperatorFrom q before cs with
  | case1 => cases h
  | case2 q before c hOperator rest ih =>
    obtain ⟨rfl, rfl⟩ := eq_of_isOperator hOperator
    rcases Option.or_eq_some_iff.mp h with hLater | ⟨hNone, hHere⟩
    · obtain ⟨ds, hBefore, rfl, hRun, hAfter, hSections⟩ := ih hLater
      refine ⟨'>' :: '>' :: ds, ?_, rfl, hRun, hAfter, ?_⟩
      · rw [hBefore]
        simp
      · rw [sectionsFrom_double, hSections, sectionsFrom_double]
        rfl
    · cases hHere
      have hAfter := lastOperatorFrom_eq_none_iff.mp hNone
      refine ⟨[], (List.append_nil _).symm, rfl, rfl, hAfter, ?_⟩
      rw [sectionsFrom_double, sectionsFrom_eq_of_not_mem hAfter]
      rfl
  | case3 q before c hOperator cs hSingle ih =>
    obtain ⟨rfl, rfl⟩ := eq_of_isOperator hOperator
    have hNext := head?_ne_of_single hSingle
    rcases Option.or_eq_some_iff.mp h with hLater | ⟨hNone, hHere⟩
    · obtain ⟨ds, hBefore, rfl, hRun, hAfter, hSections⟩ := ih hLater
      refine ⟨'>' :: ds, ?_, rfl, hRun, hAfter, ?_⟩
      · rw [hBefore]
        simp
      · rw [sectionsFrom_single hNext, hSections, sectionsFrom_single]
        · rfl
        · cases ds with
          | nil => exact (Option.some_ne_none '>').symm
          | cons d ds => exact hNext
    · cases hHere
      have hAfter := lastOperatorFrom_eq_none_iff.mp hNone
      refine ⟨[], (List.append_nil _).symm, rfl, rfl, hAfter, ?_⟩
      rw [sectionsFrom_single hNext, sectionsFrom_eq_of_not_mem hAfter]
      rfl
  | case4 q before c cs hOther ih =>
    obtain ⟨ds, hBefore, rfl, hRun, hAfter, hSections⟩ := ih h
    refine ⟨c :: ds, ?_, rfl, hRun, hAfter, ?_⟩
    · rw [hBefore]
      simp
    · obtain ⟨first, rest, hFirst⟩ := List.exists_cons_of_ne_nil (sectionsFrom_ne_nil (q.step c) ds)
      rw [sectionsFrom_cons hOther, hSections, sectionsFrom_cons hOther, hFirst]
      rfl

/-- What is left of a text when its last redirect is taken out. The text has the sections `init`, `before` and
`last`. -/
structure TakenOut (cs : List Char) (init : List (List Char)) (before last : List Char) (r : Redirected) : Prop where
  target : (words last).head? = some r.redirect.target.toList
  balanced : isBalanced cs = true → isBalanced r.command = true
  tail_sections : (sections r.command).tail = (init ++ [glue before (afterWord last)]).tail
  count : ∀ c, Text.isBlank c = false → c ≠ '>' →
    (bare cs).count c = (bare r.command).count c + (bare (wordText last)).count c

theorem count_bareFrom_operator {c : Char} (hc : c ≠ '>') (append : Bool) :
    (bareFrom .bare (operatorChars append)).count c = 0 := by
  rw [List.count_eq_zero]
  cases append <;> simp [operatorChars, bareFrom, hc]

theorem extractRedirect_of_lastOperator {split : OperatorSplit} (h : lastOperator cs = some split) :
    extractRedirect cs =
      match words split.after with
      | [] => .error .unexpectedNewline
      | target :: _ =>
        .ok (some ⟨Text.trim (glue split.before (afterWord split.after)), ⟨split.append, String.ofList target⟩⟩) := by
  rw [extractRedirect, h]
  rfl

/-- Taking out a redirect changes nothing where there is no operator. It fails if no word stands behind the last one. -/
theorem extractRedirect_cases (cs : List Char) :
    '>' ∉ bare cs ∧ extractRedirect cs = .ok none ∨
      ∃ init before last, sections cs = init ++ [before, last] ∧ Quote.run .bare before = .bare ∧
        isBalanced last = isBalanced cs ∧
        (words last = [] ∧ extractRedirect cs = .error .unexpectedNewline ∨
          words last ≠ [] ∧ ∃ r, extractRedirect cs = .ok (some r) ∧ TakenOut cs init before last r) := by
  cases hSplit : lastOperator cs with
  | none =>
    refine .inl ⟨lastOperator_eq_none_iff.mp hSplit, ?_⟩
    rw [extractRedirect, hSplit]
  | some split =>
    obtain ⟨ds, hBefore, hCs, hRun, hAfter, hSections⟩ := exists_of_lastOperatorFrom hSplit
    rw [List.reverse_nil, List.nil_append] at hBefore
    have hOperator : Quote.run .bare (operatorChars split.append) = .bare := by
      cases split.append <;> rfl
    have hEnd : isBalanced split.after = isBalanced cs := by
      rw [hCs, isBalanced, isBalanced, Quote.run_append, hRun, Quote.run_append, hOperator]
    have hLeftover := not_mem_bare_afterWord isBlank_operator hAfter
    obtain ⟨init, last, hDs, hLast, hGlued⟩ := exists_sections_glue hRun hLeftover
    rw [extractRedirect_of_lastOperator hSplit, hBefore]
    refine .inr ⟨init, last, split.after, ?_, hLast, hEnd, ?_⟩
    · rw [sections, hSections, ← sections, hDs, List.append_assoc]
      rfl
    · cases hWords : words split.after with
      | nil => exact .inl ⟨rfl, rfl⟩
      | cons target rest =>
        refine .inr ⟨List.cons_ne_nil _ _, _, rfl, ?_, ?_, ?_, ?_⟩
        · rw [hWords, String.toList_ofList]
          rfl
        · intro hBalanced
          rw [← hEnd, isBalanced_iff] at hBalanced
          rw [isBalanced_trim, isBalanced_iff]
          exact isOpen_run_glue hRun (isOpen_run_afterWord hBalanced)
        · rw [← hGlued]
          exact tail_sections_trim fun c hc => isBlank_getLast?_glue (fun c hc => isBlank_getLast?_afterWord hc) hc
        · intro c hBlank hc
          have hGlue := count_bare_glue hRun hBlank (afterWord split.after)
          have hWord := count_bare_wordText hBlank split.after
          have hWhole : (bare cs).count c = (bare ds).count c + (bare split.after).count c := by
            rw [hCs, bare, bareFrom_append, hRun, bareFrom_append, hOperator, List.count_append, List.count_append,
              count_bareFrom_operator hc, Nat.zero_add]
            rfl
          rw [count_bare_trim hBlank]
          omega

theorem operatorCount_eq_zero (h : '>' ∉ bare cs) : operatorCount cs = 0 := by
  rw [operatorCount, sections, sectionsFrom_eq_of_not_mem h]
  rfl

theorem TakenOut.operatorCount_eq {init : List (List Char)} {before last : List Char} {r : Redirected}
    (h : TakenOut cs init before last r) (hSections : sections cs = init ++ [before, last]) :
    operatorCount cs = operatorCount r.command + 1 := by
  rw [operatorCount, operatorCount, h.tail_sections, hSections]
  simp

theorem length_sectionsFrom_le (q : Quote) (cs : List Char) : (sectionsFrom q cs).length ≤ cs.length + 1 := by
  fun_induction sectionsFrom q cs with
  | case1 => exact Nat.le_refl 1
  | case2 q c hOperator rest ih =>
    simp only [List.length_cons]
    omega
  | case3 q c hOperator cs hSingle ih =>
    simp only [List.length_cons]
    omega
  | case4 q c cs hOther ih =>
    rw [List.length_modifyHead, List.length_cons]
    omega

theorem operatorCount_le_length (cs : List Char) : operatorCount cs ≤ cs.length := by
  have hLength := length_sectionsFrom_le .bare cs
  rw [operatorCount, List.length_tail, sections]
  omega

/-- What holds of a text without operators, of one whose last operator has no word behind it, and of any other
text as soon as it holds of what is left without the last redirect, holds of what is left without redirects. -/
theorem dropRedirects_keeps {P : List Char → Except LineFault (List Char) → Prop}
    (hDone : ∀ cs, '>' ∉ bare cs → P cs (.ok cs))
    (hFault : ∀ cs init before last, sections cs = init ++ [before, last] → words last = [] →
      P cs (.error .unexpectedNewline))
    (hStep : ∀ cs init before last r result, sections cs = init ++ [before, last] → Quote.run .bare before = .bare →
      isBalanced last = isBalanced cs → words last ≠ [] → TakenOut cs init before last r →
      P r.command result → P cs result)
    {fuel : Nat} (hFuel : operatorCount cs ≤ fuel) : P cs (dropRedirects fuel cs) := by
  -- each step takes one operator, so the fuel lasts until none is left
  induction fuel generalizing cs with
  | zero =>
    rcases extractRedirect_cases cs with ⟨hNone, -⟩ | ⟨init, before, last, hSections, -⟩
    · exact hDone cs hNone
    · rw [operatorCount, hSections] at hFuel
      simp at hFuel
  | succ fuel ih =>
    rw [dropRedirects]
    rcases extractRedirect_cases cs with ⟨hNone, hExtract⟩ | ⟨init, before, last, hSections, hBefore, hLast, hCases⟩
    · rw [hExtract]
      exact hDone cs hNone
    · rcases hCases with ⟨hWords, hExtract⟩ | ⟨hWords, r, hExtract, hTaken⟩
      · rw [hExtract]
        exact hFault cs init before last hSections hWords
      · rw [hExtract]
        have hLess := hTaken.operatorCount_eq hSections
        exact hStep cs init before last r _ hSections hBefore hLast hWords hTaken (ih (by omega))

/-- A line without its redirects, and the last of them. -/
theorem exists_splitLine_eq (hBalanced : isBalanced cs = true) :
    ∃ fuel redirect, operatorCount cs ≤ fuel ∧ splitLine cs = (·, redirect) <$> dropRedirects fuel cs ∧
      redirect.map (·.target.toList) = (sections cs).tail.getLast?.bind fun last => (words last).head? := by
  rw [splitLine, hBalanced]
  rcases extractRedirect_cases cs with ⟨hNone, hExtract⟩ | ⟨init, before, last, hSections, hBefore, hLast, hCases⟩
  · refine ⟨1, none, ?_, ?_, ?_⟩
    · rw [operatorCount_eq_zero hNone]
      exact Nat.zero_le 1
    · rw [dropRedirects, hExtract]
      rfl
    · rw [sections, sectionsFrom_eq_of_not_mem hNone]
      rfl
  · rw [getLast?_tail_sections hSections]
    rcases hCases with ⟨hWords, hExtract⟩ | ⟨hWords, r, hExtract, hTaken⟩
    · refine ⟨operatorCount cs + 1, none, Nat.le_succ _, ?_, ?_⟩
      · rw [dropRedirects, hExtract]
        rfl
      · simp [hWords]
    · refine ⟨r.command.length + 1, some r.redirect, ?_, ?_, ?_⟩
      · rw [hTaken.operatorCount_eq hSections]
        exact Nat.succ_le_succ (operatorCount_le_length r.command)
      · rw [dropRedirects, hExtract]
        show (dropRedirects r.command.length r.command >>= fun command => .ok (command, some r.redirect)) =
          (·, some r.redirect) <$> dropRedirects r.command.length r.command
        cases dropRedirects r.command.length r.command <;> rfl
      · exact hTaken.target.symm

theorem not_mem_of_dropRedirects {fuel : Nat} (hFuel : operatorCount cs ≤ fuel) (h : dropRedirects fuel cs = .ok ds) :
    (isBalanced cs = true → isBalanced ds = true) ∧ '>' ∉ bare ds := by
  refine dropRedirects_keeps
    (P := fun cs result => ∀ ds, result = .ok ds → (isBalanced cs = true → isBalanced ds = true) ∧ '>' ∉ bare ds)
    ?_ ?_ ?_ hFuel ds h
  · rintro cs hNone ds ⟨⟩
    exact ⟨id, hNone⟩
  · exact fun _ _ _ _ _ _ _ => nofun
  · intro cs init before last r result _ _ _ _ hTaken hLeft ds hDs
    obtain ⟨hBalanced, hNone⟩ := hLeft ds hDs
    exact ⟨fun h => hBalanced (hTaken.balanced h), hNone⟩

theorem isBalanced_of_splitLine {found : List Char × Option Redirect} (h : splitLine cs = .ok found) :
    isBalanced cs = true := by
  cases hBalanced : isBalanced cs with
  | true => rfl
  | false =>
    rw [splitLine, hBalanced] at h
    cases h

theorem splitLine_eq_ok {command : List Char} {redirect : Option Redirect} (h : splitLine cs = .ok (command, redirect)) :
    isBalanced command = true ∧ '>' ∉ bare command := by
  have hBalanced := isBalanced_of_splitLine h
  obtain ⟨fuel, redirect', hFuel, hEq, -⟩ := exists_splitLine_eq hBalanced
  rw [hEq] at h
  obtain ⟨ds, hDrop, hPair⟩ := Result.exists_of_map_ok h
  cases hPair
  obtain ⟨hKept, hNone⟩ := not_mem_of_dropRedirects hFuel hDrop
  exact ⟨hKept hBalanced, hNone⟩

theorem extractRedirect_eq_some {r : Redirected} (h : extractRedirect cs = .ok (some r)) :
    (isBalanced cs = true → isBalanced r.command = true) ∧ operatorCount cs = operatorCount r.command + 1 := by
  rcases extractRedirect_cases cs with ⟨-, hNone⟩ | ⟨init, before, last, hSections, -, -, hCases⟩
  · rw [hNone] at h
    cases h
  · rcases hCases with ⟨-, hFault⟩ | ⟨-, r', hTakes, hTaken⟩
    · rw [hFault] at h
      cases h
    · rw [hTakes] at h
      cases h
      exact ⟨hTaken.balanced, hTaken.operatorCount_eq hSections⟩

/-- The readers of a line agree on its quotes. The parts between pipes, joined by pipes, are the text. Of a balanced
text each part is balanced and has no pipe, also when it is trimmed. What is left without the last redirect is
balanced as well and has one operator less, and when all redirects are taken out no operator is left. -/
theorem scanners_agree (cs : List Char) :
    ['|'].intercalate (splitPipes cs) = cs ∧
    (isBalanced cs = true → ∀ part ∈ splitPipes cs, isBalanced part = true ∧ splitPipes part = [part] ∧
      isBalanced (Text.trim part) = true ∧ splitPipes (Text.trim part) = [Text.trim part]) ∧
    (∀ r, extractRedirect cs = .ok (some r) →
      (isBalanced cs = true → isBalanced r.command = true) ∧ operatorCount cs = operatorCount r.command + 1) ∧
    ∀ command redirect, splitLine cs = .ok (command, redirect) → '>' ∉ bare command ∧ operatorCount command = 0 := by
  refine ⟨intercalate_splitPipesFrom .bare [] cs, fun hBalanced part hPart => ?_, fun r => extractRedirect_eq_some,
    fun command redirect hSplit => ?_⟩
  · obtain ⟨hPartBalanced, hPipe⟩ := part_of_mem_splitPipes hBalanced hPart
    refine ⟨hPartBalanced, splitPipes_eq_of_not_mem hPipe, by rwa [isBalanced_trim], ?_⟩
    exact splitPipes_eq_of_not_mem ((not_mem_bare_trim isBlank_pipe).mpr hPipe)
  · obtain ⟨-, hNone⟩ := splitLine_eq_ok hSplit
    exact ⟨hNone, operatorCount_eq_zero hNone⟩

/-- Two redirects and a pipe, with a quoted pipe, a quoted operator and an escaped blank before an operator. -/
theorem scanners_agree_around_escape :
    let cs := "echo 'a|b'\\ >> '>' > f | wc".toList
    let command := "echo 'a|b'\\ | wc".toList
    isBalanced cs = true ∧ splitLine cs = .ok (command, some ⟨false, "f"⟩) ∧
      (∀ part ∈ splitPipes cs, isBalanced part = true ∧ splitPipes part = [part] ∧
        isBalanced (Text.trim part) = true ∧ splitPipes (Text.trim part) = [Text.trim part]) ∧
      (∃ r, extractRedirect cs = .ok (some r) ∧ isBalanced r.command = true ∧
        operatorCount cs = operatorCount r.command + 1) ∧
      '>' ∉ bare command ∧ operatorCount command = 0 := by
  have hBalanced : isBalanced "echo 'a|b'\\ >> '>' > f | wc".toList = true := by decide +kernel
  have hSplit : (splitLine "echo 'a|b'\\ >> '>' > f | wc".toList).toOption =
      some ("echo 'a|b'\\ | wc".toList, some ⟨false, "f"⟩) := by
    decide +kernel
  have hExtract : ((extractRedirect "echo 'a|b'\\ >> '>' > f | wc".toList).toOption.bind id).isSome = true := by
    decide +kernel
  obtain ⟨-, hParts, hOne, hLeft⟩ := scanners_agree "echo 'a|b'\\ >> '>' > f | wc".toList
  rw [Result.toOption_eq_some_iff] at hSplit
  obtain ⟨r, hr⟩ := Option.isSome_iff_exists.mp hExtract
  obtain ⟨found, hFound, rfl⟩ := Option.bind_eq_some_iff.mp hr
  rw [Result.toOption_eq_some_iff] at hFound
  obtain ⟨hCommand, hCount⟩ := hOne r hFound
  exact ⟨hBalanced, hSplit, hParts hBalanced, ⟨r, hFound, hCommand hBalanced, hCount⟩, hLeft _ _ hSplit⟩

end VirtualShell.Line
