import VirtualShell.Text.Blank

/-!
# Lines written back

A text that is read into lines and written back with a newline behind each of them keeps its lines, but every line
break has become a newline, and the last line has got one. So a text comes back as it was, up to a newline at its
end, if and only if it has no other line breaks than newlines: `sameButEnd_rewritten_iff`.
-/
namespace VirtualShell.Text
set_option autoImplicit false

def rewritten (cs : List Char) : List Char := (linesFrom [] cs).flatMap (· ++ ['\n'])

/-- A text in which every line break is a newline. The two characters that end a line together become one. -/
def unified : List Char → List Char
  | [] => []
  | '\r' :: '\n' :: cs => '\n' :: unified cs
  | c :: cs => (if isLineBreak c then '\n' else c) :: unified cs

def closed (cs : List Char) : List Char := if cs = [] ∨ cs.getLast? = some '\n' then cs else cs ++ ['\n']

/-- The same text, but for one newline at the end of a text that has none. -/
def SameButEnd (old new : List Char) : Prop :=
  new = old ∨ old ≠ [] ∧ old.getLast? ≠ some '\n' ∧ new = old ++ ['\n']

variable {line cs ds : List Char} {c : Char}

theorem not_isLineBreak_of_mem_linesFrom (hLine : ∀ c ∈ line, isLineBreak c = false) :
    ∀ l ∈ linesFrom line cs, ∀ c ∈ l, isLineBreak c = false := by
  have hReverse : ∀ {line : List Char}, (∀ c ∈ line, isLineBreak c = false) →
      ∀ c ∈ line.reverse, isLineBreak c = false := fun h c hc => h c (List.mem_reverse.mp hc)
  fun_induction linesFrom line cs with
  | case1 line hEmpty => exact List.forall_mem_nil _
  | case2 line hMore => exact List.forall_mem_singleton.mpr (hReverse hLine)
  | case3 line cs ih => exact List.forall_mem_cons.mpr ⟨hReverse hLine, ih (List.forall_mem_nil _)⟩
  | case4 line c cs _ hBreak ih => exact List.forall_mem_cons.mpr ⟨hReverse hLine, ih (List.forall_mem_nil _)⟩
  | case5 line c cs _ hBreak ih => exact ih (List.forall_mem_cons.mpr ⟨Bool.eq_false_iff.mpr hBreak, hLine⟩)

theorem linesFrom_cons_of_not_break (h : isLineBreak c = false) (line cs : List Char) :
    linesFrom line (c :: cs) = linesFrom (c :: line) cs := by
  rw [linesFrom, if_neg (by simp [h])]
  rintro ds rfl
  exact absurd h (by decide)

theorem linesFrom_append_newline (h : ∀ c ∈ ds, isLineBreak c = false) (line cs : List Char) :
    linesFrom line (ds ++ '\n' :: cs) = (line.reverse ++ ds) :: linesFrom [] cs := by
  induction ds generalizing line with
  | nil =>
    rw [List.nil_append, List.append_nil, linesFrom]
    · rfl
    · exact fun _ hReturn => absurd hReturn (by decide)
  | cons c ds ih =>
    obtain ⟨hc, hds⟩ := List.forall_mem_cons.mp h
    rw [List.cons_append, linesFrom_cons_of_not_break hc, ih hds, List.reverse_cons, List.append_assoc]
    rfl

/-- Lines with newlines behind them are read again. -/
theorem linesFrom_flatMap {lines : List (List Char)} (h : ∀ l ∈ lines, ∀ c ∈ l, isLineBreak c = false) :
    linesFrom [] (lines.flatMap (· ++ ['\n'])) = lines := by
  induction lines with
  | nil => rfl
  | cons l lines ih =>
    obtain ⟨hl, hlines⟩ := List.forall_mem_cons.mp h
    rw [List.flatMap_cons, List.append_assoc, List.singleton_append, linesFrom_append_newline hl, ih hlines]
    rfl

theorem linesFrom_rewritten (cs : List Char) : linesFrom [] (rewritten cs) = linesFrom [] cs :=
  linesFrom_flatMap (not_isLineBreak_of_mem_linesFrom (List.forall_mem_nil _))

theorem closed_append_newline (ds cs : List Char) : closed (ds ++ '\n' :: cs) = ds ++ '\n' :: closed cs := by
  cases cs with
  | nil => simp [closed]
  | cons c cs =>
    have hLast : (ds ++ '\n' :: c :: cs).getLast? = (c :: cs).getLast? := by
      simp [List.getLast?_append, List.getLast?_cons]
    simp only [closed, hLast, List.append_eq_nil_iff, List.cons_ne_nil, and_false, false_or]
    split
    · rfl
    · rw [List.append_assoc, List.cons_append]

/-- The line that is being read stands before what is left of the text. -/
theorem flatMap_linesFrom (hLine : '\n' ∉ line) :
    (linesFrom line cs).flatMap (· ++ ['\n']) = closed (line.reverse ++ unified cs) := by
  fun_induction linesFrom line cs with
  | case1 line hEmpty =>
    rw [List.isEmpty_iff.mp hEmpty]
    rfl
  | case2 line hMore =>
    have hOpen : line.reverse.getLast? ≠ some '\n' := by
      rw [List.getLast?_reverse]
      exact fun hHead => hLine (List.mem_of_head? hHead)
    have hSome : line.reverse ≠ [] := by simpa using hMore
    rw [unified, List.append_nil, closed, if_neg (not_or.mpr ⟨hSome, hOpen⟩), List.flatMap_singleton]
  | case3 line cs ih =>
    rw [List.flatMap_cons, ih List.not_mem_nil, unified, closed_append_newline, List.append_assoc]
    rfl
  | case4 line c cs hPair hBreak ih =>
    rw [List.flatMap_cons, ih List.not_mem_nil, unified, if_pos hBreak, closed_append_newline, List.append_assoc]
    · rfl
    · exact hPair
  | case5 line c cs hPair hBreak ih =>
    have hNewline : c ≠ '\n' := fun hc => hBreak (by rw [hc]; decide)
    rw [ih (by simp [hNewline.symm, hLine]), unified, if_neg hBreak, List.reverse_cons, List.append_assoc,
      List.singleton_append]
    exact hPair

theorem rewritten_eq (cs : List Char) : rewritten cs = closed (unified cs) := flatMap_linesFrom List.not_mem_nil

theorem eq_newline_of_mem_unified (h : c ∈ unified cs) (hBreak : isLineBreak c = true) : c = '\n' := by
  fun_induction unified cs with
  | case1 => cases h
  | case2 cs ih =>
    rcases List.mem_cons.mp h with rfl | h
    · rfl
    · exact ih h
  | case3 d cs _ ih =>
    rcases List.mem_cons.mp h with rfl | h
    · split at hBreak
      · rw [if_pos ‹_›]
      · contradiction
    · exact ih h

theorem unified_eq_self (h : ∀ c ∈ cs, isLineBreak c = true → c = '\n') : unified cs = cs := by
  fun_induction unified cs with
  | case1 => rfl
  | case2 cs ih => exact absurd (h '\r' List.mem_cons_self (by decide)) (by decide)
  | case3 c cs _ ih =>
    obtain ⟨hc, hcs⟩ := List.forall_mem_cons.mp h
    rw [ih hcs]
    split
    · rename_i hBreak
      rw [hc hBreak]
    · rfl

theorem sameButEnd_closed (cs : List Char) : SameButEnd cs (closed cs) := by
  unfold closed
  split
  · exact .inl rfl
  · rename_i hOpen
    obtain ⟨hSome, hLast⟩ := not_or.mp hOpen
    exact .inr ⟨hSome, hLast, rfl⟩

theorem mem_of_mem_closed (h : c ∈ closed cs) : c ∈ cs ∨ c = '\n' := by
  unfold closed at h
  split at h
  · exact .inl h
  · exact (List.mem_append.mp h).imp_right List.mem_singleton.mp

theorem SameButEnd.subset (h : SameButEnd cs ds) : cs ⊆ ds := by
  rcases h with rfl | ⟨-, -, rfl⟩
  · exact List.Subset.refl _
  · exact List.subset_append_left _ _

/-- A text comes back as it was, up to a newline at its end, if all its lines end in newlines, and only then. -/
theorem sameButEnd_rewritten_iff :
    SameButEnd cs (rewritten cs) ↔ ∀ c ∈ cs, isLineBreak c = true → c = '\n' := by
  rw [rewritten_eq]
  constructor
  · intro h c hc hBreak
    rcases mem_of_mem_closed (h.subset hc) with hMem | hNewline
    · exact eq_newline_of_mem_unified hMem hBreak
    · exact hNewline
  · intro h
    rw [unified_eq_self h]
    exact sameButEnd_closed cs

end VirtualShell.Text
