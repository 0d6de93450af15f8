import VirtualShell.Proofs.Pattern.Spans
import VirtualShell.Proofs.Result
import VirtualShell.Proofs.Session.Named
import VirtualShell.Proofs.Text.Unmark
import VirtualShell.Shell.Run

/-!
# What markup shows

Two commands answer with markup when they are asked to, those that list directories and search lines.
Each piece of such an answer stands for the piece that is answered without markup. All other commands
answer the same in both cases, without markup.
-/
namespace VirtualShell
set_option autoImplicit false

/-- The reply `m`, which may be markup, shows what the plain reply `p` says. -/
structure Reply.Shows (m p : Reply) : Prop where
  plain : p.markup = false
  output : if m.markup then unmark m.output = escapeMarkup p.output else m.output = p.output
  failed : m.failed = p.failed
  exits : m.exits = p.exits
  kind : m.kind = p.kind
  editor : m.editor = p.editor

theorem Reply.Shows.refl {r : Reply} (h : r.markup = false) : Reply.Shows r r := by
  refine ⟨h, ?_, rfl, rfl, rfl, rfl⟩
  rw [h]
  rfl

/-- Replies that differ only in their output and in whether it is markup. -/
theorem Reply.Shows.of_renders {m p : Reply} (h : Renders m.output p.output) (hMarkup : m.markup = true)
    (hPlain : p = { m with output := p.output, markup := false }) : Reply.Shows m p := by
  rw [hPlain]
  refine ⟨rfl, ?_, rfl, rfl, rfl, rfl⟩
  rw [if_pos hMarkup]
  exact h.unmark

structure Problem.Shows (m p : Problem) : Prop where
  text : Renders m.text p.text
  kind : m.kind = p.kind

section

variable {ms ps : List Problem}

theorem texts_render (h : List.Forall₂ Problem.Shows ms ps) :
    List.Forall₂ Renders (ms.map Problem.text) (ps.map Problem.text) := by
  rw [List.forall₂_map_left_iff, List.forall₂_map_right_iff]
  exact h.imp fun _ _ hShows => hShows.text

theorem lastKind_eq (h : List.Forall₂ Problem.Shows ms ps) : Problem.lastKind ms = Problem.lastKind ps := by
  have hKinds : ms.map Problem.kind = ps.map Problem.kind := by
    rw [← List.forall₂_eq_eq_eq, List.forall₂_map_left_iff, List.forall₂_map_right_iff]
    exact h.imp fun _ _ hShows => hShows.kind
  rw [Problem.lastKind, Problem.lastKind, ← List.getLast?_map, ← List.getLast?_map, hKinds]

theorem isEmpty_eq {α β : Type} {R : α → β → Prop} {xs : List α} {ys : List β} (h : List.Forall₂ R xs ys) :
    xs.isEmpty = ys.isEmpty := by
  cases h <;> rfl

end

section

open Pattern

theorem Pattern.Disjoint.mono {size start start' : Nat} {spans : List (Nat × Nat)} (h : Disjoint size start spans)
    (hLess : start' ≤ start) : Disjoint size start' spans := by
  cases spans with
  | nil => trivial
  | cons span spans =>
    obtain ⟨hFirst, hRest⟩ := h
    exact ⟨Nat.le_trans hLess hFirst, hRest⟩

/-- Spans that follow each other cut the text into pieces, which are shown one after the other. -/
theorem markSpansFrom_renders {spans : List (Nat × Nat)} {start : Nat} {cs : List Char}
    (h : Disjoint (start + cs.length) start spans) : Renders (markSpansFrom start cs spans) (String.ofList cs) := by
  induction spans generalizing start cs with
  | nil =>
    have hEscape := Renders.escape (String.ofList cs)
    rwa [escapeMarkup, String.toList_ofList] at hEscape
  | cons span spans ih =>
    obtain ⟨first, last⟩ := span
    obtain ⟨hFirst, hLess, hBound, hRest⟩ := h
    rw [markSpansFrom]
    split
    · exact ih (hRest.mono (Nat.le_trans hFirst hLess))
    · rename_i hne
      have hne : first ≠ last := by simpa using hne
      have hSize : start + cs.length = last + (cs.drop (last - start)).length := by
        rw [List.length_drop]
        omega
      have hAfter := ih (hSize ▸ hRest)
      have hPieces : cs = cs.take (first - start) ++
          ((cs.drop (first - start)).take (last - first) ++ cs.drop (last - start)) := by
        have hDrop : cs.drop (last - start) = (cs.drop (first - start)).drop (last - first) := by
          rw [List.drop_drop]
          congr 1
          omega
        rw [hDrop, List.take_append_drop, List.take_append_drop]
      have hMarked : (cs.drop (first - start)).take (last - first) ≠ [] := by
        intro hNil
        have hLength := congrArg List.length hNil
        rw [List.length_take, List.length_drop, List.length_nil] at hLength
        omega
      have hBefore := Renders.escape (String.ofList (cs.take (first - start)))
      have hInside := Renders.escape (String.ofList ((cs.drop (first - start)).take (last - first)))
      rw [escapeMarkup, String.toList_ofList] at hBefore hInside
      have hClass : ("<span class=\"" ++ "grep-match" ++ "\">").toList ∈ markupTags := by decide +kernel
      have hAll := hBefore.append (hInside.markSpan_append hClass hAfter (by simp [hMarked]))
      rwa [← String.ofList_append, ← String.ofList_append, ← hPieces, ← String.append_assoc] at hAll

theorem highlight_renders (pattern : Option Pattern) (line : String) : Renders (highlight pattern line) line := by
  cases pattern with
  | none => exact Renders.escape line
  | some p =>
    have hDisjoint := spans_disjoint p line.toList.toArray
    rw [List.size_toArray, ← Nat.zero_add line.toList.length] at hDisjoint
    have hMarked := markSpansFrom_renders hDisjoint
    rwa [String.ofList_toList] at hMarked

theorem renderMarkup_renders (r : GrepReport) (pattern : Option Pattern) (numbered : Bool) :
    Renders (r.renderMarkup pattern numbered) (r.render numbered) := by
  have hClass : ("<span class=\"" ++ "grep-path" ++ "\">").toList ∈ markupTags := by decide +kernel
  have hColon : Renders ":" ":" := .same (by decide)
  have hBreak : Renders "\n" "\n" := .same (by decide)
  have hNone : Renders "" "" := .same (by decide)
  refine Renders.intercalate hBreak ?_
  rw [List.forall₂_map_left_iff, List.forall₂_map_right_iff, List.forall₂_same]
  intro m _
  refine Renders.append (Renders.append ?_ ?_) (highlight_renders pattern m.line)
  · cases r.manyFiles with
    | false => exact hNone
    | true => exact (Renders.escape m.path).markSpan_append hClass hColon (by simp)
  · cases numbered with
    | false => exact hNone
    | true => exact (Renders.number m.number).append hColon

theorem Lookup.reply_shows (r : GrepReport) (pattern : Option Pattern) (numbered : Bool) :
    Reply.Shows (reply r pattern true numbered) (reply r pattern false numbered) := by
  have hBreak : Renders "\n" "\n" := .same (by decide)
  have hErrors : List.Forall₂ Renders (r.errors.map escapeMarkup) r.errors := by
    rw [List.forall₂_map_left_iff, List.forall₂_same]
    exact fun text _ => Renders.escape text
  have hEmpty : (r.errors.map escapeMarkup).isEmpty = r.errors.isEmpty := isEmpty_eq hErrors
  unfold reply
  simp only [if_true, if_false, Bool.false_eq_true, hEmpty]
  split
  · exact .of_renders (Renders.intercalate hBreak hErrors) rfl rfl
  · have hLines := renderMarkup_renders r pattern numbered
    exact .of_renders (Renders.intercalate hBreak (Renders.filter (.cons hLines hErrors))) rfl rfl

end

/-- A fault that these steps may end with is a crash. -/
def NeverRefused {α : Type} (r : Except Fault α) : Prop := ∀ refusal, r ≠ .error (.refused refusal)

section

variable {α β : Type} {r : Except Fault α} {f : α → Except Fault β}

theorem NeverRefused.bind (h : NeverRefused r) (hNext : ∀ a, NeverRefused (f a)) : NeverRefused (r >>= f) := by
  cases r with
  | ok a => exact hNext a
  | error fault =>
    intro refusal hEq
    cases hEq
    exact h refusal rfl

theorem neverRefused_pure (a : α) : NeverRefused (pure a : Except Fault α) := fun _ h => nomatch h

theorem neverRefused_crash (c : Crash) : NeverRefused (crash c : Except Fault α) := fun _ h => nomatch h

theorem neverRefused_mapM (h : ∀ a, NeverRefused (f a)) (as : List α) : NeverRefused (as.mapM f) := by
  induction as with
  | nil => exact neverRefused_pure []
  | cons a as ih =>
    rw [List.mapM_cons]
    exact (h a).bind fun b => ih.bind fun bs => neverRefused_pure (b :: bs)

end

theorem Node.neverRefused_longLine (n : Node) (shown : String) : NeverRefused (n.longLine shown) := by
  refine NeverRefused.bind ?_ fun stamp => neverRefused_pure _
  unfold date
  split
  · exact neverRefused_pure _
  · exact neverRefused_crash _

namespace Listing

abbrev Style.marked (style : Style) : Style := { style with markup := true }

abbrev Style.plain (style : Style) : Style := { style with markup := false }

variable {style : Style} {operand : String} {n : Node} {es : List Node} {s : Session}

theorem escape_renders (style : Style) (text : String) : Renders (style.marked.escape text) (style.plain.escape text) :=
  Renders.escape text

theorem escape_all_render (lines : List String) :
    List.Forall₂ Renders (lines.map style.marked.escape) (lines.map style.plain.escape) := by
  rw [List.forall₂_map_left_iff, List.forall₂_map_right_iff, List.forall₂_same]
  exact fun line _ => escape_renders style line

theorem shownName_renders (h : n.name ≠ "") : Renders (shownName style.marked n) (shownName style.plain n) := by
  have hDir : ("<span class=\"" ++ "ls-dir" ++ "\">").toList ∈ markupTags := by decide +kernel
  have hExec : ("<span class=\"" ++ "ls-exec" ++ "\">").toList ∈ markupTags := by decide +kernel
  have hEscape := Renders.escape n.name
  unfold shownName
  simp only [Bool.not_true, Bool.not_false, if_true, if_false, Bool.false_eq_true]
  split
  · exact hEscape.markSpan hDir h
  · split
    · exact hEscape.markSpan hExec h
    · exact hEscape

theorem entryLines_agree (h : ∀ e ∈ es, e.name ≠ "") :
    Result.Agree (List.Forall₂ Renders) (entryLines style.marked es) (entryLines style.plain es) := by
  unfold entryLines
  split
  · refine Result.Agree.bind_same fun lines => .ok (.cons ?_ (escape_all_render lines))
    exact (Renders.same (by decide)).append (Renders.number _)
  · split
    · exact .ok .nil
    · refine .ok (.cons (Renders.intercalate (.same (by decide)) ?_) .nil)
      rw [List.forall₂_map_left_iff, List.forall₂_map_right_iff, List.forall₂_same]
      exact fun e he => shownName_renders (h e he)

theorem directoryBlock_agree (h : ∀ e ∈ es, e.name ≠ "") :
    Result.Agree (List.Forall₂ Renders) (directoryBlock style.marked operand es)
      (directoryBlock style.plain operand es) := by
  have hBreak : Renders "\n" "\n" := .same (by decide)
  refine Result.Agree.bind (entryLines_agree h) fun ms ps hLines => .ok (.cons (Renders.intercalate hBreak ?_) .nil)
  dsimp only
  split
  · exact .cons ((escape_renders style operand).append (.same (by decide))) hLines
  · exact hLines

theorem fileBlock_agree : Result.Agree (List.Forall₂ Renders) (fileBlock style.marked operand n)
    (fileBlock style.plain operand n) := by
  have hLine : ∀ line, Result.Agree (List.Forall₂ Renders) (Except.ok [style.marked.escape line] : Except Fault _)
      (.ok [style.plain.escape line]) := fun line => .ok (.cons (escape_renders style line) .nil)
  unfold fileBlock
  dsimp only
  split
  · exact Result.Agree.bind_same hLine
  · exact hLine operand

theorem neverRefused_entryLines : NeverRefused (entryLines style es) := by
  unfold entryLines
  split
  · exact (neverRefused_mapM (fun n => n.neverRefused_longLine "") es).bind fun _ => neverRefused_pure _
  · split
    · exact neverRefused_pure _
    · exact neverRefused_pure _

theorem neverRefused_fileBlock : NeverRefused (fileBlock style operand n) := by
  unfold fileBlock
  dsimp only
  split
  · exact (n.neverRefused_longLine operand).bind fun line => neverRefused_pure _
  · exact neverRefused_pure _

/-- What was found at an operand, or what keeps it from being listed, with and without markup. -/
abbrev Shows : Except Problem (List String) → Except Problem (List String) → Prop
  | .ok ms, .ok ps => List.Forall₂ Renders ms ps
  | .error m, .error p => Problem.Shows m p
  | _, _ => False

theorem problem_shows (style : Style) (p : Problem) : Problem.Shows (problem style.marked p) (problem style.plain p) :=
  ⟨escape_renders style p.text, rfl⟩

theorem name_ne_of_list {path : PathArg} {hidden : Bool} (h : s.root.Named) (hList : s.list path hidden = .ok es) :
    ∀ e ∈ es, e.name ≠ "" := by
  unfold Session.list at hList
  obtain ⟨n, hn, hList⟩ := Result.exists_of_bind_ok hList
  obtain ⟨may, -, hList⟩ := Result.exists_of_bind_ok hList
  split at hList
  · cases hList
    have hNode := h.get? (Session.lookup_of_reachDirectory hn).1
    exact fun e he => (hNode.of_mem (List.mem_filter.mp he).1).here
  · cases hList

theorem listOperand_agree (style : Style) (operand : String) (h : s.root.Named) :
    Result.Agree Shows (listOperand style.marked operand s) (listOperand style.plain operand s) := by
  unfold listOperand
  split
  · exact .error _
  · exact .ok (problem_shows style _)
  · split
    · exact Result.Agree.map fileBlock_agree fun _ _ hBlock => hBlock
    · dsimp only
      split
      · exact .error _
      · exact .ok (problem_shows style _)
      · rename_i es hList
        exact Result.Agree.map (directoryBlock_agree (name_ne_of_list h hList)) fun _ _ hBlock => hBlock

theorem neverRefused_listOperand : NeverRefused (listOperand style operand s) := by
  unfold listOperand
  split
  · exact neverRefused_crash _
  · exact neverRefused_pure _
  · split
    · exact neverRefused_fileBlock.bind fun _ => neverRefused_pure _
    · split
      · exact neverRefused_crash _
      · exact neverRefused_pure _
      · refine NeverRefused.bind ?_ fun _ => neverRefused_pure _
        exact neverRefused_entryLines.bind fun _ => neverRefused_pure _

theorem reply_shows {ms ps : List String} {qs rs : List Problem} (style : Style)
    (hBlocks : List.Forall₂ Renders ms ps) (hProblems : List.Forall₂ Problem.Shows qs rs) :
    Reply.Shows (reply style.marked ms qs) (reply style.plain ps rs) := by
  have hBreak : Renders "\n" "\n" := .same (by decide)
  have hGap : Renders "\n\n" "\n\n" := .same (by decide)
  have hOutput : Renders ((if style.headed then "\n\n" else "\n").intercalate (ms.filter (· != "")))
      ((if style.headed then "\n\n" else "\n").intercalate (ps.filter (· != ""))) := by
    split
    · exact Renders.intercalate hGap (Renders.filter hBlocks)
    · exact Renders.intercalate hBreak (Renders.filter hBlocks)
  unfold reply
  rw [isEmpty_eq hProblems, lastKind_eq hProblems]
  dsimp only
  split
  · exact .of_renders hOutput rfl rfl
  · refine .of_renders (Renders.intercalate hBreak (Renders.filter ?_)) rfl rfl
    exact List.rel_append (texts_render hProblems) (.cons hOutput .nil)

end Listing

end VirtualShell
