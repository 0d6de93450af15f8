import VirtualShell.Proofs.Search.Spelling
import VirtualShell.Proofs.Shell.Markup
import VirtualShell.Proofs.Text.Tags

/-!
# Answers that are well marked

Spans stand around matches of a search, the paths that are shown with them, and the names of listed nodes.
Everything else is escaped.
-/
namespace VirtualShell
set_option autoImplicit false

open Line (Spelled)

/-- If the reply is markup, its spans are closed, and spelled with characters that have `p`. -/
def Reply.Marked (p : Char → Prop) (r : Reply) : Prop := r.markup = true → VirtualShell.Marked p r.output

variable {p : Char → Prop}

theorem Reply.marked_of_plain {r : Reply} (h : r.markup = false) : r.Marked p := by
  intro hMarkup
  rw [h] at hMarkup
  cases hMarkup

namespace Listing

variable {style : Style} {operand : String} {s : Session}

theorem marked_escape (h : style.markup = true) (text : String) : Marked p (style.escape text) := by
  rw [Style.escape, if_pos h]
  exact .escape text

theorem marked_fileBlock (h : style.markup = true) {n : Node} {blocks : List String}
    (hBlocks : fileBlock style operand n = .ok blocks) : ∀ block ∈ blocks, Marked p block := by
  unfold fileBlock at hBlocks
  dsimp only at hBlocks
  split at hBlocks
  · obtain ⟨line, -, hBlocks⟩ := Result.exists_of_bind_ok hBlocks
    cases hBlocks
    exact List.forall_mem_singleton.mpr (marked_escape h line)
  · cases hBlocks
    exact List.forall_mem_singleton.mpr (marked_escape h operand)

theorem spelled_of_list {path : PathArg} {hidden : Bool} {es : List Node} (hs : s.Spelled p)
    (h : s.list path hidden = .ok es) : ∀ e ∈ es, Spelled p e.name.toList := by
  obtain ⟨n, hn, h⟩ := Result.exists_of_bind_ok h
  obtain ⟨may, -, h⟩ := Result.exists_of_bind_ok h
  split at h
  · cases h
    have hNode : n.Spelled p := hs.names.get? (Session.lookup_of_reachDirectory hn).1
    exact fun e he => (hNode.of_mem (List.mem_filter.mp he).1).here
  · cases h

def MarkedOperand (p : Char → Prop) : Except Problem (List String) → Prop
  | .ok blocks => ∀ block ∈ blocks, Marked p block
  | .error problem => Marked p problem.text

theorem marked_reply {blocks : List String} {problems : List Problem} (hBlocks : ∀ block ∈ blocks, Marked p block)
    (hProblems : ∀ problem ∈ problems, Marked p problem.text) : (reply style blocks problems).Marked p := by
  have hOutput : Marked p ((if style.headed then "\n\n" else "\n").intercalate (blocks.filter (· != ""))) := by
    refine Marked.intercalate ?_ fun block hBlock => hBlocks block (List.mem_filter.mp hBlock).1
    split
    · decide
    · decide
  intro _
  unfold reply
  dsimp only
  split
  · exact hOutput
  · refine Marked.intercalate (by decide) fun text hText => ?_
    rcases List.mem_append.mp (List.mem_filter.mp hText).1 with hProblem | hLast
    · obtain ⟨problem, hMem, rfl⟩ := List.mem_map.mp hProblem
      exact hProblems problem hMem
    · rw [List.mem_singleton.mp hLast]
      exact hOutput

end Listing

section

variable (hp : ∀ c, c ≠ '\n' → p c)

include hp

theorem marked_markSpansFrom {spans : List (Nat × Nat)} {start : Nat} {cs : List Char} (h : Spelled p cs) :
    Marked p (markSpansFrom start cs spans) := by
  induction spans generalizing start cs with
  | nil => exact .escaped cs
  | cons span spans ih =>
    obtain ⟨first, last⟩ := span
    have hDrop : ∀ n, Spelled p (cs.drop n) := fun n c hc => h c (List.mem_of_mem_drop hc)
    have hMatch : IsOpening ("<span class=\"" ++ "grep-match" ++ "\">").toList := by decide +kernel
    rw [markSpansFrom]
    split
    · exact ih h
    · refine ((Marked.escaped _).append (.markSpan_escape hMatch hp ?_)).append (ih (hDrop _))
      exact fun c hc => hDrop _ c (List.mem_of_mem_take hc)

theorem marked_highlight (pattern : Option Pattern) {line : String} (h : Spelled p line.toList) :
    Marked p (highlight pattern line) := by
  cases pattern with
  | none => exact .escape line
  | some pattern => exact marked_markSpansFrom hp h

theorem marked_renderMarkup {r : GrepReport} (h : r.Spelled p) (pattern : Option Pattern) (numbered : Bool) :
    Marked p (r.renderMarkup pattern numbered) := by
  have hPath : IsOpening ("<span class=\"" ++ "grep-path" ++ "\">").toList := by decide +kernel
  have hColon : Marked p ":" := .of_not_mem (by decide)
  have hEmpty : Marked p "" := .of_not_mem (by decide)
  refine Marked.intercalate (by decide) fun text hText => ?_
  obtain ⟨m, hm, rfl⟩ := List.mem_map.mp hText
  refine (Marked.append ?_ ?_).append (marked_highlight hp pattern (h m hm).2)
  · split
    · exact (Marked.markSpan_escape hPath hp (h m hm).1).append hColon
    · exact hEmpty
  · split
    · exact (Marked.number m.number).append hColon
    · exact hEmpty

namespace Lookup

theorem marked_reply {r : GrepReport} (h : r.Spelled p) (pattern : Option Pattern) (markup numbered : Bool) :
    (reply r pattern markup numbered).Marked p := by
  cases markup with
  | false =>
    refine Reply.marked_of_plain ?_
    unfold reply
    simp only [Bool.false_eq_true, if_false]
    split
    · rfl
    · rfl
  | true =>
    have hErrors : ∀ e ∈ r.errors.map escapeMarkup, Marked p e := by
      intro e he
      obtain ⟨text, -, rfl⟩ := List.mem_map.mp he
      exact .escape text
    intro _
    unfold reply
    simp only [if_true]
    split
    · exact Marked.intercalate (by decide) hErrors
    · refine Marked.intercalate (by decide) fun text hText => ?_
      rcases List.mem_cons.mp (List.mem_filter.mp hText).1 with rfl | hError
      · exact marked_renderMarkup hp h pattern numbered
      · exact hErrors text hError

theorem spelled_report {s : Session} {pattern : String} {paths : List String} {piped : Option String}
    {o : GrepOptions} {r : GrepReport} (hs : s.Spelled p) (hPaths : ∀ path ∈ paths, Spelled p path.toList)
    (h : report s pattern paths piped o = .ok (some r)) : r.Spelled p := by
  have hHere : Spelled p ".".toList := List.forall_mem_singleton.mpr (hp '.' (by decide))
  unfold report at h
  split at h
  · obtain ⟨found, hFound, h⟩ := Result.exists_of_bind_ok h
    cases h
    exact Session.spelled_grep hp hs hPaths hFound
  · obtain ⟨found, hFound, h⟩ := Result.exists_of_bind_ok h
    cases h
    exact spelled_grepText hp hFound
  · split at h
    · obtain ⟨found, hFound, h⟩ := Result.exists_of_bind_ok h
      cases h
      exact Session.spelled_grep hp hs (List.forall_mem_singleton.mpr hHere) hFound
    · cases h

theorem marked_grepReply {s : Session} {c : Call} {pattern : String} {paths : List String} {r : Reply}
    (hs : s.Spelled p) (hPaths : ∀ path ∈ paths, Spelled p path.toList) (h : grepReply s c pattern paths = .ok r) :
    r.Marked p := by
  obtain ⟨found, hReport, h⟩ := Result.exists_of_bind_ok h
  cases found with
  | none =>
    cases h
    exact Reply.marked_of_plain rfl
  | some found =>
    dsimp only at h
    split at h
    · cases h
      exact Reply.marked_of_plain rfl
    · obtain ⟨read, -, h⟩ := Result.exists_of_bind_ok h
      cases h
      exact marked_reply hp (spelled_report hp hs hPaths hReport) read _ _

end Lookup

namespace Listing

variable {style : Style} {operand : String} {s : Session}

theorem marked_shownName (h : style.markup = true) {n : Node} (hName : Spelled p n.name.toList) :
    Marked p (shownName style n) := by
  have hDir : IsOpening ("<span class=\"" ++ "ls-dir" ++ "\">").toList := by decide +kernel
  have hExec : IsOpening ("<span class=\"" ++ "ls-exec" ++ "\">").toList := by decide +kernel
  unfold shownName
  rw [h, if_neg (by decide)]
  split
  · exact .markSpan_escape hDir hp hName
  · split
    · exact .markSpan_escape hExec hp hName
    · exact .escape n.name

theorem marked_entryLines (h : style.markup = true) {es : List Node} {lines : List String}
    (hNames : ∀ e ∈ es, Spelled p e.name.toList) (hLines : entryLines style es = .ok lines) :
    ∀ line ∈ lines, Marked p line := by
  unfold entryLines at hLines
  split at hLines
  · obtain ⟨long, -, hLines⟩ := Result.exists_of_bind_ok hLines
    cases hLines
    refine List.forall_mem_cons.mpr ⟨(Marked.of_not_mem (by decide)).append (.number _), fun line hLine => ?_⟩
    obtain ⟨text, -, rfl⟩ := List.mem_map.mp hLine
    exact marked_escape h text
  · split at hLines
    · cases hLines
      exact List.forall_mem_nil _
    · cases hLines
      refine List.forall_mem_singleton.mpr (Marked.intercalate (by decide) fun name hName => ?_)
      obtain ⟨e, he, rfl⟩ := List.mem_map.mp hName
      exact marked_shownName hp h (hNames e he)

theorem marked_directoryBlock (h : style.markup = true) {es : List Node} {blocks : List String}
    (hNames : ∀ e ∈ es, Spelled p e.name.toList) (hBlocks : directoryBlock style operand es = .ok blocks) :
    ∀ block ∈ blocks, Marked p block := by
  obtain ⟨lines, hLines, hBlocks⟩ := Result.exists_of_bind_ok hBlocks
  have hMarked := marked_entryLines hp h hNames hLines
  cases hBlocks
  refine List.forall_mem_singleton.mpr (Marked.intercalate (by decide) ?_)
  split
  · exact List.forall_mem_cons.mpr ⟨(marked_escape h operand).append (.of_not_mem (by decide)), hMarked⟩
  · exact hMarked

theorem marked_listOperand (h : style.markup = true) (hs : s.Spelled p) {found : Except Problem (List String)}
    (hFound : listOperand style operand s = .ok found) : MarkedOperand p found := by
  unfold listOperand at hFound
  split at hFound
  · cases hFound
  · cases hFound
    exact marked_escape h _
  · split at hFound
    · obtain ⟨blocks, hBlocks, rfl⟩ := Result.exists_of_map_ok hFound
      exact marked_fileBlock h hBlocks
    · split at hFound
      · cases hFound
      · cases hFound
        exact marked_escape h _
      · rename_i es hList
        obtain ⟨blocks, hBlocks, rfl⟩ := Result.exists_of_map_ok hFound
        exact marked_directoryBlock hp h (spelled_of_list hs hList) hBlocks

end Listing

end

namespace Act

variable {α β : Type} {s : Session} {Q : α → Prop} {a : Act α}

structure Sees (s : Session) (Q : α → Prop) (a : Act α) : Prop where
  still : (a.run s).2 = s
  answer : ∀ x, (a.run s).1 = .ok x → Q x

theorem sees_pure {x : α} (h : Q x) : Sees s Q (pure x : Act α) := by
  refine ⟨rfl, fun y hRun => ?_⟩
  cases hRun
  exact h

theorem sees_bind {Q' : β → Prop} {f : α → Act β} (h : Sees s Q a) (hNext : ∀ x, Q x → Sees s Q' (f x)) :
    Sees s Q' (a >>= f) := by
  obtain ⟨hStill, hAnswer⟩ := h
  cases ha : a.run s with
  | mk result t =>
    rw [ha] at hAnswer
    obtain rfl : t = s := by rwa [ha] at hStill
    cases result with
    | ok x =>
      obtain ⟨hStill, hAnswer⟩ := hNext x (hAnswer x rfl)
      refine ⟨?_, ?_⟩
      all_goals simp only [run_bind, ha]
      · exact hStill
      · exact hAnswer
    | error c =>
      refine ⟨?_, ?_⟩
      all_goals simp only [run_bind, ha]
      exact fun x hNever => by cases hNever

theorem sees_inspect {look : Session → Except Fault α} (h : ∀ x, look s = .ok x → Q x) :
    Sees s (fun answer => (∀ x, answer = .ok x → Q x) ∧ ∀ r, answer = .error r → look s = .error (.refused r))
      (inspect look) := by
  refine ⟨?_, ?_⟩
  all_goals simp only [inspect, run_attempt, Update.run_look]
  · cases look s with
    | ok x => rfl
    | error fault => cases fault <;> rfl
  · intro answer hAnswer
    cases hLook : look s with
    | ok x =>
      rw [hLook] at hAnswer
      cases hAnswer
      refine ⟨fun y hy => ?_, fun r hr => ?_⟩
      · cases hy
        exact h x hLook
      · cases hr
    | error fault =>
      rw [hLook] at hAnswer
      cases fault with
      | refused r =>
        cases hAnswer
        refine ⟨fun x hx => ?_, fun r' hr => ?_⟩
        · cases hx
        · cases hr
          rfl
      | crashed c => cases hAnswer

theorem sees_gather {Q : String → Prop} {R : Problem → Prop} {act : String → Act Lines}
    (h : ∀ operand, Sees s (fun found => (∀ line ∈ found.1, Q line) ∧ ∀ problem ∈ found.2, R problem) (act operand))
    (operands : List String) :
    Sees s (fun found => (∀ line ∈ found.1, Q line) ∧ ∀ problem ∈ found.2, R problem) (gather operands act) := by
  induction operands with
  | nil => exact sees_pure ⟨List.forall_mem_nil _, List.forall_mem_nil _⟩
  | cons operand rest ih =>
    refine sees_bind (h operand) fun x hx => sees_bind ih fun y hy => sees_pure ?_
    exact ⟨List.forall_mem_append.mpr ⟨hx.1, hy.1⟩, List.forall_mem_append.mpr ⟨hx.2, hy.2⟩⟩

variable (hp : ∀ c, c ≠ '\n' → p c) {c : Call}

include hp

theorem sees_ls (hMarkup : c.markup = true) (hs : s.Spelled p) : Sees s (Reply.Marked p) (Listing.ls c) := by
  refine sees_bind (sees_gather (Q := Marked p) (R := fun problem => Marked p problem.text) (fun target => ?_) _)
    fun found hFound => sees_pure (Listing.marked_reply hFound.1 hFound.2)
  refine sees_bind (sees_inspect fun found => Listing.marked_listOperand hp hMarkup hs) fun x ⟨hOk, hRefused⟩ => ?_
  cases x with
  | error r => exact absurd (hRefused r rfl) (Listing.neverRefused_listOperand r)
  | ok found =>
    have hHere := hOk found rfl
    cases found with
    | ok blocks => exact sees_pure ⟨hHere, List.forall_mem_nil _⟩
    | error problem => exact sees_pure ⟨List.forall_mem_nil _, List.forall_mem_singleton.mpr hHere⟩

theorem sees_grep (hs : s.Spelled p) (hArgs : ∀ w ∈ c.args, Spelled p w.toList) :
    Sees s (Reply.Marked p) (Lookup.grep c) := by
  unfold Lookup.grep
  split
  · exact sees_pure (Reply.marked_of_plain rfl)
  · rename_i pattern paths hWords
    rw [hWords] at hArgs
    refine sees_bind (sees_inspect fun r => Lookup.marked_grepReply hp hs (List.forall_mem_cons.mp hArgs).2)
      fun x ⟨hOk, _⟩ => ?_
    cases x with
    | ok r => exact sees_pure (hOk r rfl)
    | error r => exact sees_pure (Reply.marked_of_plain rfl)

end Act

theorem Listing.markup_reply (style : Style) (blocks : List String) (problems : List Problem) :
    (reply style blocks problems).markup = style.markup := by
  unfold reply
  dsimp only
  split
  · rfl
  · rfl

theorem Utility.act_marked (hp : ∀ c, c ≠ '\n' → p c) (u : Utility) {c : Call} {s : Session} (hs : s.Spelled p)
    (hArgs : ∀ w ∈ c.args, Spelled p w.toList) {r : Reply} (hRun : ((u.act c).run s).1 = .ok r) : r.Marked p := by
  by_cases hList : u = .ls
  · subst hList
    by_cases hMarkup : c.markup = true
    · exact (Act.sees_ls hp hMarkup hs).answer r hRun
    · have hPlain : (Listing.ls c).Answers fun r => r.markup = c.markup :=
        Act.answers_after fun found => Act.answers_pure (Listing.markup_reply _ _ _)
      have hSame : r.markup = c.markup := hPlain s r hRun
      exact Reply.marked_of_plain (hSame.trans (Bool.not_eq_true _ ▸ hMarkup))
  · by_cases hSearch : u = .grep
    · subst hSearch
      exact (Act.sees_grep hp hs hArgs).answer r hRun
    · exact Reply.marked_of_plain (Utility.act_plain hList hSearch c s r hRun)

end VirtualShell
