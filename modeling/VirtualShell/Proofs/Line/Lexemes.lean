import VirtualShell.Proofs.Line.Operators

/-!
# Reading a line from left to right

From left to right, a line consists of words, pipes and redirect operators. An operator never falls into a word,
so the lexemes of a line are those of its sections with the operators between them (`exists_lexemesFrom_sections`),
and what directly follows an operator is what its section begins with (`anyOperator_lexemes`).
-/
namespace VirtualShell.Line
set_option autoImplicit false

inductive Lexeme where
  | word (chars : List Char)
  | pipe
  | operator (append : Bool)
  deriving DecidableEq, Repr

namespace Lexeme

def isWord : Lexeme → Bool
  | word _ => true
  | pipe | operator _ => false

def isOperator : Lexeme → Bool
  | operator _ => true
  | word _ | pipe => false

def ended (word : Option (List Char)) : List Lexeme := (word.map fun w => .word w.reverse).toList

end Lexeme

/-- The words, pipes and operators of a line; `word` is being read in reverse, if one is open. -/
def lexemesFrom (q : Quote) (word : Option (List Char)) : List Char → List Lexeme
  | [] => Lexeme.ended (if q.isEscape then some ('\x5c' :: word.getD []) else word)
  | c :: cs =>
    if q == .bare && c == '>' then
      match cs with
      | '>' :: rest => Lexeme.ended word ++ .operator true :: lexemesFrom .bare none rest
      | cs => Lexeme.ended word ++ .operator false :: lexemesFrom .bare none cs
    else if q == .bare && c == '|' then Lexeme.ended word ++ .pipe :: lexemesFrom .bare none cs
    else if q.separates c then Lexeme.ended word ++ lexemesFrom .bare none cs
    else lexemesFrom (q.step c) (some (if q.marks c then word.getD [] else c :: word.getD [])) cs

def lexemes (cs : List Char) : List Lexeme := lexemesFrom .bare none cs

/-- Whether `p` holds of what directly follows some operator, which is nothing at the end of the line. -/
def anyOperator (p : Option Lexeme → Bool) : List Lexeme → Bool
  | [] => false
  | .operator _ :: rest => p rest.head? || anyOperator p rest
  | _ :: rest => anyOperator p rest

variable {q : Quote} {c : Char} {word : Option (List Char)} {cs ds s : List Char} {rest : List (List Char)}

theorem lexemesFrom_pipe (word : Option (List Char)) (cs : List Char) :
    lexemesFrom .bare word ('|' :: cs) = Lexeme.ended word ++ .pipe :: lexemesFrom .bare none cs := by
  rw [lexemesFrom.eq_def]
  rfl

theorem lexemesFrom_separator (hOther : ¬(q == .bare && c == '>') = true) (hPipe : ¬(q == .bare && c == '|') = true)
    (hSeparates : q.separates c = true) (word : Option (List Char)) (cs : List Char) :
    lexemesFrom q word (c :: cs) = Lexeme.ended word ++ lexemesFrom .bare none cs := by
  rw [lexemesFrom.eq_def]
  dsimp only
  rw [if_neg hOther, if_neg hPipe, if_pos hSeparates]

theorem lexemesFrom_other (hOther : ¬(q == .bare && c == '>') = true) (hPipe : ¬(q == .bare && c == '|') = true)
    (hSeparates : ¬q.separates c = true) (word : Option (List Char)) (cs : List Char) :
    lexemesFrom q word (c :: cs) =
      lexemesFrom (q.step c) (some (if q.marks c then word.getD [] else c :: word.getD [])) cs := by
  rw [lexemesFrom.eq_def]
  dsimp only
  rw [if_neg hOther, if_neg hPipe, if_neg hSeparates]

theorem not_mem_bareFrom_cons (h : ¬(q == .bare && c == '>') = true) (hNone : '>' ∉ bareFrom (q.step c) cs) :
    '>' ∉ bareFrom q (c :: cs) := by
  rw [bareFrom]
  split
  · rename_i hq
    have hc : '>' ≠ c := by
      rintro rfl
      exact h (by rw [hq]; rfl)
    rwa [List.mem_cons, or_iff_right hc]
  · exact hNone

theorem lexemesFrom_some_ne_nil (q : Quote) (w cs : List Char) : lexemesFrom q (some w) cs ≠ [] := by
  induction cs generalizing q w with
  | nil => cases q <;> exact List.cons_ne_nil _ _
  | cons c cs ih =>
    rw [lexemesFrom.eq_def]
    dsimp only
    split
    · split <;> exact List.cons_ne_nil _ _
    · split
      · exact List.cons_ne_nil _ _
      · split
        · exact List.cons_ne_nil _ _
        · exact ih _ _

theorem isOperator_of_mem_ended {l : Lexeme} (h : l ∈ Lexeme.ended word) : l.isOperator = false := by
  cases word with
  | none => cases h
  | some w =>
    rw [List.mem_singleton.mp h]
    rfl

theorem isOperator_of_mem_lexemesFrom {l : Lexeme} (hNone : '>' ∉ bareFrom q cs) (h : l ∈ lexemesFrom q word cs) :
    l.isOperator = false := by
  fun_induction lexemesFrom q word cs with
  | case1 => exact isOperator_of_mem_ended h
  | case2 q word c hOperator rest ih =>
    obtain ⟨rfl, rfl⟩ := eq_of_isOperator hOperator
    exact absurd List.mem_cons_self hNone
  | case3 q word c hOperator cs hSingle ih =>
    obtain ⟨rfl, rfl⟩ := eq_of_isOperator hOperator
    exact absurd List.mem_cons_self hNone
  | case4 q word c cs hOther hPipe ih =>
    obtain ⟨rfl, rfl⟩ := eq_of_isPipe hPipe
    rcases List.mem_append.mp h with hEnded | hMem
    · exact isOperator_of_mem_ended hEnded
    · rcases List.mem_cons.mp hMem with rfl | hMem
      · rfl
      · exact ih (not_mem_bareFrom_step hNone) hMem
  | case5 q word c cs hOther hPipe hSeparates ih =>
    obtain ⟨rfl, hBlank⟩ := eq_of_separates hSeparates
    have hNext := not_mem_bareFrom_step hNone
    rw [step_blank hBlank] at hNext
    rcases List.mem_append.mp h with hEnded | hMem
    · exact isOperator_of_mem_ended hEnded
    · exact ih hNext hMem
  | case6 q word c cs hOther hPipe hSeparates ih => exact ih (not_mem_bareFrom_step hNone) h

/-- The lexemes of the sections behind operators, with these operators. -/
inductive ReadSections : List (List Char) → List Lexeme → Prop
  | nil : ReadSections [] []
  | cons {s : List Char} {rest : List (List Char)} {ls : List Lexeme} (append : Bool) (h : '>' ∉ bare s)
      (hRest : ReadSections rest ls) : ReadSections (s :: rest) (.operator append :: (lexemes s ++ ls))

/-- Lexemes do not reach over an operator. -/
theorem exists_lexemesFrom_sections (q : Quote) (word : Option (List Char)) (cs : List Char) :
    ∃ s rest ls, sectionsFrom q cs = s :: rest ∧ '>' ∉ bareFrom q s ∧
      lexemesFrom q word cs = lexemesFrom q word s ++ ls ∧ ReadSections rest ls := by
  fun_induction lexemesFrom q word cs with
  | case1 q word => exact ⟨[], [], [], rfl, List.not_mem_nil, (List.append_nil _).symm, .nil⟩
  | case2 q word c hOperator rest ih =>
    obtain ⟨rfl, rfl⟩ := eq_of_isOperator hOperator
    obtain ⟨s, rest', ls, hSections, hNone, hLexemes, hRest⟩ := ih
    refine ⟨[], s :: rest', _, congrArg ([] :: ·) hSections, List.not_mem_nil, ?_, .cons true hNone hRest⟩
    rw [hLexemes]
    rfl
  | case3 q word c hOperator cs hSingle ih =>
    obtain ⟨rfl, rfl⟩ := eq_of_isOperator hOperator
    obtain ⟨s, rest', ls, hSections, hNone, hLexemes, hRest⟩ := ih
    refine ⟨[], s :: rest', _, ?_, List.not_mem_nil, ?_, .cons false hNone hRest⟩
    · rw [sectionsFrom_single (head?_ne_of_single hSingle), hSections]
    · rw [hLexemes]
      rfl
  | case4 q word c cs hOther hPipe ih =>
    obtain ⟨rfl, rfl⟩ := eq_of_isPipe hPipe
    obtain ⟨s, rest, ls, hSections, hNone, hLexemes, hRest⟩ := ih
    refine ⟨'|' :: s, rest, ls, ?_, not_mem_bareFrom_cons hOther hNone, ?_, hRest⟩
    · exact (sectionsFrom_cons hOther cs).trans (congrArg (List.modifyHead ('|' :: ·)) hSections)
    · rw [hLexemes, lexemesFrom_pipe, List.append_assoc]
      rfl
  | case5 q word c cs hOther hPipe hSeparates ih =>
    obtain ⟨rfl, hBlank⟩ := eq_of_separates hSeparates
    obtain ⟨s, rest, ls, hSections, hNone, hLexemes, hRest⟩ := ih
    have hStep := step_blank hBlank
    refine ⟨c :: s, rest, ls, ?_, not_mem_bareFrom_cons hOther (by rwa [hStep]), ?_, hRest⟩
    · rw [sectionsFrom_cons hOther, hStep, hSections]
      rfl
    · rw [hLexemes, lexemesFrom_separator hOther hPipe hSeparates, List.append_assoc]
  | case6 q word c cs hOther hPipe hSeparates ih =>
    obtain ⟨s, rest, ls, hSections, hNone, hLexemes, hRest⟩ := ih
    refine ⟨c :: s, rest, ls, ?_, not_mem_bareFrom_cons hOther hNone, ?_, hRest⟩
    · rw [sectionsFrom_cons hOther, hSections]
      rfl
    · rw [hLexemes, lexemesFrom_other hOther hPipe hSeparates]

theorem ReadSections.not_mem {ls : List Lexeme} (h : ReadSections rest ls) : ∀ s ∈ rest, '>' ∉ bare s := by
  induction h with
  | nil => exact List.forall_mem_nil _
  | cons append hNone hRest ih => exact List.forall_mem_cons.mpr ⟨hNone, ih⟩

theorem not_mem_of_mem_sections (h : s ∈ (sections cs).tail) : '>' ∉ bare s := by
  obtain ⟨first, rest, ls, hSections, -, -, hRest⟩ := exists_lexemesFrom_sections .bare none cs
  rw [sections, hSections] at h
  exact hRest.not_mem s h

theorem lexemesFrom_cons_ne_nil (h : q.separates c = false) (word : Option (List Char)) (cs : List Char) :
    lexemesFrom q word (c :: cs) ≠ [] := by
  rw [lexemesFrom.eq_def]
  dsimp only
  split
  · split <;> exact List.append_ne_nil_of_right_ne_nil _ (List.cons_ne_nil _ _)
  · split
    · exact List.append_ne_nil_of_right_ne_nil _ (List.cons_ne_nil _ _)
    · rw [if_neg (by simp [h])]
      exact lexemesFrom_some_ne_nil _ _ _

theorem lexemes_eq_nil_iff : lexemes cs = [] ↔ cs.all Text.isBlank = true := by
  induction cs with
  | nil => exact ⟨fun _ => rfl, fun _ => rfl⟩
  | cons c cs ih =>
    rw [List.all_cons, Bool.and_eq_true]
    cases hBlank : Text.isBlank c with
    | true =>
      have hPipe : ¬(Quote.bare == .bare && c == '|') = true := by
        intro h
        rw [(eq_of_isPipe h).2] at hBlank
        cases hBlank
      rw [lexemes, lexemesFrom_separator (not_isOperator_of_isBlank hBlank) hPipe hBlank, and_iff_right rfl]
      exact ih
    | false =>
      have hSome := lexemesFrom_cons_ne_nil (separates_of_not_blank .bare hBlank) none cs
      exact ⟨fun h => absurd h hSome, fun h => nomatch h.1⟩

variable {p : Option Lexeme → Bool}

theorem anyOperator_append {ls : List Lexeme} (h : ∀ l ∈ ls, l.isOperator = false) (rest : List Lexeme) :
    anyOperator p (ls ++ rest) = anyOperator p rest := by
  induction ls with
  | nil => rfl
  | cons l ls ih =>
    obtain ⟨hFirst, hRest⟩ := List.forall_mem_cons.mp h
    cases l with
    | operator append => cases hFirst
    | word chars => exact ih hRest
    | pipe => exact ih hRest

/-- The property `p` may not tell an operator from the end of the line: a blank section can have either behind it. -/
theorem ReadSections.anyOperator_eq (hp : ∀ append, p (some (.operator append)) = p none) {ls : List Lexeme}
    (h : ReadSections rest ls) : anyOperator p ls = rest.any fun s => p (lexemes s).head? := by
  induction h with
  | nil => rfl
  | @cons s rest ls append hNone hRest ih =>
    have hNext : p (lexemes s ++ ls).head? = p (lexemes s).head? := by
      cases hLexemes : lexemes s with
      | cons l _ => rfl
      | nil =>
        cases hRest with
        | nil => rfl
        | cons append => exact hp append
    have hHere : ∀ l ∈ lexemes s, l.isOperator = false := fun l => isOperator_of_mem_lexemesFrom hNone
    rw [anyOperator, hNext, anyOperator_append hHere, ih, List.any_cons]

/-- What directly follows the operators of a text is what their sections begin with. -/
theorem anyOperator_lexemes (hp : ∀ append, p (some (.operator append)) = p none) (cs : List Char) :
    anyOperator p (lexemes cs) = (sections cs).tail.any fun s => p (lexemes s).head? := by
  obtain ⟨s, rest, ls, hSections, hNone, hLexemes, hRest⟩ := exists_lexemesFrom_sections .bare none cs
  rw [sections, hSections, lexemes, hLexemes, anyOperator_append fun l => isOperator_of_mem_lexemesFrom hNone]
  exact hRest.anyOperator_eq hp

end VirtualShell.Line
