import VirtualShell.Proofs.Line.Spelling
import VirtualShell.Proofs.Line.Words

/-!
# Plain lines

On a line on which nothing is quoted, escaped, piped or redirected the words are the runs of characters between blanks.
-/
namespace VirtualShell.Line
set_option autoImplicit false

/-- Neither quotes nor escapes, and is no pipe and no redirect operator. -/
def IsPlain (c : Char) : Prop := c ≠ '\x27' ∧ c ≠ '\x22' ∧ c ≠ '\x5c' ∧ c ≠ '|' ∧ c ≠ '>'

instance (c : Char) : Decidable (IsPlain c) := inferInstanceAs (Decidable (_ ∧ _))

abbrev Unbroken (cs : List Char) : Prop := Spelled (Text.isBlank · = false) cs

variable {c b : Char} {cs ds v w : List Char}

theorem marks_of_isPlain (h : IsPlain c) : Quote.marks .bare c = false := by
  simp [Quote.marks, h.1, h.2.1, h.2.2.1]

theorem step_of_isPlain (h : IsPlain c) : Quote.step .bare c = .bare := by
  simp [Quote.step, h.1, h.2.1, h.2.2.1]

theorem run_of_plain (h : Spelled IsPlain cs) : Quote.run .bare cs = .bare := by
  induction cs with
  | nil => rfl
  | cons c cs ih =>
    obtain ⟨hc, hcs⟩ := List.forall_mem_cons.mp h
    exact (congrArg (Quote.run · cs) (step_of_isPlain hc)).trans (ih hcs)

theorem isBalanced_of_plain (h : Spelled IsPlain cs) : isBalanced cs = true := by
  rw [isBalanced, run_of_plain h]
  rfl

theorem not_endsEscaped_of_plain (h : Spelled IsPlain cs) : endsEscaped cs = false := by
  rw [endsEscaped, run_of_plain h.trimRight]
  rfl

theorem not_mem_bare_of_plain (h : Spelled IsPlain cs) (hc : ¬IsPlain c) : c ∉ bare cs :=
  fun hMem => hc (h c ((bareFrom_sublist .bare cs).subset hMem))

theorem wordsFrom_cons_plain (hc : IsPlain c) (hBlank : Text.isBlank c = false) (word : Option (List Char))
    (cs : List Char) : wordsFrom .bare word (c :: cs) = wordsFrom .bare (some (c :: word.getD [])) cs := by
  rw [wordsFrom_cons (separates_of_not_blank .bare hBlank), step_of_isPlain hc, marks_of_isPlain hc]
  rfl

/-- Each word stands somewhere on the line. -/
theorem infix_of_mem_wordsFrom (h : Spelled IsPlain cs) (word : Option (List Char)) (hSome : word ≠ some [])
    (hWord : Unbroken (word.getD [])) (hv : v ∈ wordsFrom .bare word cs) :
    v <:+: (word.getD []).reverse ++ cs ∧ v ≠ [] ∧ Unbroken v := by
  induction cs generalizing word with
  | nil =>
    obtain ⟨w, rfl, rfl⟩ : ∃ w, word = some w ∧ v = w.reverse := by
      cases word with
      | none => cases hv
      | some w => exact ⟨w, rfl, List.mem_singleton.mp hv⟩
    rw [List.append_nil]
    exact ⟨List.infix_rfl, by simpa using hSome, Spelled.reverse hWord⟩
  | cons c cs ih =>
    obtain ⟨hc, hcs⟩ := List.forall_mem_cons.mp h
    cases hBlank : Text.isBlank c with
    | true =>
      rw [wordsFrom_separator hBlank, List.mem_append] at hv
      rcases hv with hHere | hLater
      · cases word with
        | none => cases hHere
        | some w =>
          obtain rfl := List.mem_singleton.mp hHere
          exact ⟨(List.prefix_append _ _).isInfix, by simpa using hSome, Spelled.reverse hWord⟩
      · obtain ⟨hInfix, hUnbroken⟩ := ih hcs none nofun nofun hLater
        exact ⟨hInfix.trans (List.suffix_append_of_suffix (List.suffix_cons c cs)).isInfix, hUnbroken⟩
    | false =>
      rw [wordsFrom_cons_plain hc hBlank] at hv
      obtain ⟨hInfix, hUnbroken⟩ := ih hcs (some (c :: word.getD [])) (by simp)
        (List.forall_mem_cons.mpr ⟨hBlank, hWord⟩) hv
      refine ⟨?_, hUnbroken⟩
      simpa using hInfix

theorem infix_of_mem_words (h : Spelled IsPlain cs) (hv : v ∈ words cs) : v <:+: cs ∧ v ≠ [] ∧ Unbroken v :=
  infix_of_mem_wordsFrom h none nofun nofun hv

/-- The word that a text begins is read to its end. -/
theorem exists_wordsFrom_some (h : Spelled IsPlain cs) (w : List Char) :
    ∃ p rest, wordsFrom .bare (some w) cs = (w.reverse ++ p) :: rest ∧ p <+: cs ∧ Unbroken p := by
  induction cs generalizing w with
  | nil => exact ⟨[], [], by simp [wordsFrom, Quote.isEscape], List.prefix_rfl, nofun⟩
  | cons c cs ih =>
    obtain ⟨hc, hcs⟩ := List.forall_mem_cons.mp h
    cases hBlank : Text.isBlank c with
    | true => exact ⟨[], _, by rw [wordsFrom_separator hBlank, List.append_nil]; rfl, List.nil_prefix, nofun⟩
    | false =>
      obtain ⟨p, rest, hWords, hPrefix, hUnbroken⟩ := ih hcs (c :: w)
      refine ⟨c :: p, rest, ?_, List.cons_prefix_cons.mpr ⟨rfl, hPrefix⟩, List.forall_mem_cons.mpr ⟨hBlank, hUnbroken⟩⟩
      rw [wordsFrom_cons_plain hc hBlank]
      simpa using hWords

theorem wordsFrom_some_append (h : Spelled IsPlain w) (hw : Unbroken w) (u cs : List Char) :
    wordsFrom .bare (some u) (w ++ cs) = wordsFrom .bare (some (w.reverse ++ u)) cs := by
  induction w generalizing u with
  | nil => rfl
  | cons c w ih =>
    obtain ⟨hc, hcs⟩ := List.forall_mem_cons.mp h
    obtain ⟨hBlank, hRest⟩ := List.forall_mem_cons.mp hw
    rw [List.cons_append, wordsFrom_cons_plain hc hBlank, Option.getD_some, ih hcs hRest, List.reverse_cons,
      List.append_assoc, List.singleton_append]

theorem words_append_of_unbroken (h : Spelled IsPlain w) (hw : Unbroken w) (hSome : w ≠ []) (cs : List Char) :
    words (w ++ cs) = wordsFrom .bare (some w.reverse) cs := by
  obtain ⟨c, w, rfl⟩ := List.exists_cons_of_ne_nil hSome
  obtain ⟨hc, hcs⟩ := List.forall_mem_cons.mp h
  obtain ⟨hBlank, hRest⟩ := List.forall_mem_cons.mp hw
  rw [List.cons_append, words, wordsFrom_cons_plain hc hBlank, wordsFrom_some_append hcs hRest, List.reverse_cons]
  rfl

theorem words_of_unbroken (h : Spelled IsPlain w) (hw : Unbroken w) (hSome : w ≠ []) : words w = [w] := by
  have hWords := words_append_of_unbroken h hw hSome []
  rw [List.append_nil] at hWords
  rw [hWords]
  simp [wordsFrom, Quote.isEscape]

/-- A text that begins with a word without blanks has a first word that goes on from it. -/
theorem exists_words_append (h : Spelled IsPlain w) (hw : Unbroken w) (hSome : w ≠ []) (hcs : Spelled IsPlain cs) :
    ∃ p rest, words (w ++ cs) = (w ++ p) :: rest ∧ p <+: cs ∧ Unbroken p := by
  obtain ⟨p, rest, hWords, hPrefix, hUnbroken⟩ := exists_wordsFrom_some hcs w.reverse
  rw [List.reverse_reverse] at hWords
  exact ⟨p, rest, (words_append_of_unbroken h hw hSome cs).trans hWords, hPrefix, hUnbroken⟩

/-- A plain line is a command with its own words. -/
theorem parse_of_plain {rest : List (List Char)} (h : Spelled IsPlain cs) (hWords : words cs = w :: rest) :
    parse (String.ofList cs) = .command ⟨String.ofList w, (sortWords [] [] (rest.map String.ofList)).1,
      (sortWords [] [] (rest.map String.ofList)).2, String.ofList (Text.trim cs)⟩ none := by
  have hTrim : words (Text.trim cs) = w :: rest :=
    (words_trim (isBalanced_of_plain h) (not_endsEscaped_of_plain h)).trans hWords
  have hSome : Text.trim cs ≠ [] := by
    rintro hNil
    rw [hNil] at hTrim
    cases hTrim
  refine parse_eq_of_trim (by rw [String.toList_ofList]) (framed_trim hSome) ?_
  refine readLine_of_not_mem (isBalanced_of_plain h.trim) (not_mem_bare_of_plain h.trim (by decide))
    (not_mem_bare_of_plain h.trim (by decide)) ?_ _
  rw [readStage?, tokenize, String.toList_ofList, hTrim]
  rfl

end VirtualShell.Line
