import VirtualShell.Proofs.Text.Unmark

/-!
# Markup cut at the end of a line

Output is put together of escaped text and of spans around such text, one after the other, so that an angle
bracket is always the first character of a whole tag. No tag has a newline in it. A cut at a newline therefore
leaves all tags whole, and it leaves spans whole as long as there is no newline inside of them.
-/
namespace VirtualShell
set_option autoImplicit false

def closingTag : List Char := "</span>".toList

abbrev IsOpening (tag : List Char) : Prop := tag ∈ markupTags ∧ tag ≠ closingTag

/-- Every angle bracket is the first character of a whole tag. -/
def WholeTags (cs : List Char) : Prop :=
  ∀ before after, cs = before ++ '<' :: after → ∃ tag ∈ markupTags, tag <+: '<' :: after

def SpansClosed (cs : List Char) : Prop :=
  ∀ before tag after, IsOpening tag → cs = before ++ (tag ++ after) →
    ∃ text, '<' ∉ text ∧ text ++ closingTag <+: after

theorem exists_of_append_eq {d : Char} {xs ys before after : List Char} (h : d ∉ xs)
    (hEq : xs ++ ys = before ++ d :: after) : ∃ between, before = xs ++ between ∧ ys = between ++ d :: after := by
  rcases List.append_eq_append_iff.mp hEq with hLater | ⟨rest, rfl, hRest⟩
  · exact hLater
  · cases rest with
    | nil => exact ⟨[], by simp, hRest.symm⟩
    | cons c rest =>
      obtain ⟨rfl, -⟩ := List.cons.inj hRest
      exact absurd (List.mem_append_right _ List.mem_cons_self) h

theorem exists_tail_of_markupTags {tag : List Char} (h : tag ∈ markupTags) :
    ∃ rest, tag = '<' :: rest ∧ '<' ∉ rest := by
  have hAll : ∀ a ∈ markupTags, a.head? = some '<' ∧ '<' ∉ a.tail := by decide +kernel
  obtain ⟨hHead, hTail⟩ := hAll tag h
  obtain ⟨rest, rfl⟩ := List.head?_eq_some_iff.mp hHead
  exact ⟨rest, rfl, hTail⟩

theorem not_newline_of_markupTags {tag : List Char} (h : tag ∈ markupTags) : '\n' ∉ tag := by
  have hAll : ∀ a ∈ markupTags, '\n' ∉ a := by decide +kernel
  exact hAll tag h

theorem closingTag_mem : closingTag ∈ markupTags := by decide +kernel

theorem WholeTags.before_newline {shown rest : List Char} (h : WholeTags (shown ++ '\n' :: rest)) :
    WholeTags shown := by
  rintro before after rfl
  obtain ⟨tag, hTag, hPrefix⟩ := h before (after ++ '\n' :: rest) (by simp)
  refine ⟨tag, hTag, ?_⟩
  obtain ⟨behind, hBehind⟩ := hPrefix
  rw [← List.cons_append] at hBehind
  obtain ⟨between, hBetween, -⟩ := exists_of_append_eq (not_newline_of_markupTags hTag) hBehind
  exact ⟨between, hBetween.symm⟩

namespace Text

/-- Markup in which spans stand around text without tags, spelled with characters that have `p`. -/
inductive Marked (p : Char → Prop) : List Char → Prop where
  | nil : Marked p []
  | char {c : Char} {cs : List Char} : c ≠ '<' → Marked p cs → Marked p (c :: cs)
  | span {tag text cs : List Char} : IsOpening tag → '<' ∉ text → (∀ c ∈ text, p c) → Marked p cs →
      Marked p (tag ++ (text ++ (closingTag ++ cs)))

namespace Marked

variable {p : Char → Prop} {cs ds before after : List Char}

theorem append (h : Marked p cs) (hd : Marked p ds) : Marked p (cs ++ ds) := by
  induction h with
  | nil => exact hd
  | char hc _ ih => exact .char hc ih
  | span hTag hText hp _ ih =>
    rw [List.append_assoc, List.append_assoc, List.append_assoc]
    exact .span hTag hText hp ih

theorem of_not_mem (h : '<' ∉ cs) : Marked p cs := by
  induction cs with
  | nil => exact .nil
  | cons c cs ih =>
    obtain ⟨hc, hcs⟩ := List.ne_and_not_mem_of_not_mem_cons h
    exact .char hc.symm (ih hcs)

/-- An angle bracket stands at the end of a span, or at the beginning of one that is there in full. -/
theorem bracket (h : Marked p cs) (hEq : cs = before ++ '<' :: after) : closingTag <+: '<' :: after ∨
    ∃ tag text, IsOpening tag ∧ '<' ∉ text ∧ tag ++ (text ++ closingTag) <+: '<' :: after := by
  induction h generalizing before with
  | nil => cases before <;> cases hEq
  | @char c cs hc _ ih =>
    cases before with
    | nil => exact absurd (List.cons.inj hEq).1 hc
    | cons d before => exact ih (List.cons.inj hEq).2
  | @span tag text cs hTag hText _ _ ih =>
    obtain ⟨rest, rfl, hRest⟩ := exists_tail_of_markupTags hTag.1
    obtain ⟨last, hClosing, hLast⟩ := exists_tail_of_markupTags closingTag_mem
    cases before with
    | nil =>
      refine .inr ⟨_, text, hTag, hText, cs, ?_⟩
      rw [← List.nil_append ('<' :: after), ← hEq]
      simp
    | cons d before =>
      -- the bracket is the only one in its tag, so it stands behind this tag, the text, and the closing tag's own
      obtain ⟨-, hTail⟩ := List.cons.inj hEq
      obtain ⟨inner, -, hInner⟩ := exists_of_append_eq hRest hTail
      obtain ⟨close, -, hClose⟩ := exists_of_append_eq hText hInner
      cases close with
      | nil => exact .inl ⟨cs, hClose⟩
      | cons d close =>
        rw [hClosing] at hClose
        obtain ⟨-, hClose⟩ := List.cons.inj hClose
        obtain ⟨behind, -, hBehind⟩ := exists_of_append_eq hLast hClose
        exact ih hBehind

theorem wholeTags (h : Marked p cs) : WholeTags cs := by
  intro before after hEq
  rcases h.bracket hEq with hClosing | ⟨tag, text, hTag, -, hPrefix⟩
  · exact ⟨closingTag, closingTag_mem, hClosing⟩
  · exact ⟨tag, hTag.1, (List.prefix_append tag _).trans hPrefix⟩

theorem spansClosed (h : Marked p cs) : SpansClosed cs := by
  intro before tag after hTag hEq
  have hSame : ∀ other ∈ markupTags, other <+: tag ++ after → other = tag := by
    intro other hOther hPrefix
    rcases List.prefix_or_prefix_of_prefix hPrefix (List.prefix_append tag after) with hLess | hLess
    · exact eq_of_markupTags hOther hTag.1 hLess
    · exact (eq_of_markupTags hTag.1 hOther hLess).symm
  obtain ⟨rest, hRest, -⟩ := exists_tail_of_markupTags hTag.1
  have hBracket : cs = before ++ '<' :: (rest ++ after) := by rw [hEq, hRest, List.cons_append]
  have hHere : '<' :: (rest ++ after) = tag ++ after := by rw [hRest, List.cons_append]
  rcases h.bracket hBracket with hClosing | ⟨other, text, hOther, hText, hPrefix⟩
  · exact absurd (hSame closingTag closingTag_mem (hHere ▸ hClosing)).symm hTag.2
  · rw [hHere] at hPrefix
    obtain rfl := hSame other hOther.1 ((List.prefix_append other _).trans hPrefix)
    exact ⟨text, hText, (List.prefix_append_right_inj other).mp hPrefix⟩

/-- A cut before a newline leaves no part of a span, unless there are newlines inside of spans. -/
theorem before_newline (h : Marked p cs) (hp : ¬p '\n') (hEq : cs = before ++ '\n' :: after) : Marked p before := by
  induction h generalizing before with
  | nil => cases before <;> cases hEq
  | @char c cs hc _ ih =>
    cases before with
    | nil => exact .nil
    | cons d before =>
      obtain ⟨rfl, hTail⟩ := List.cons.inj hEq
      exact .char hc (ih hTail)
  | @span tag text cs hTag hText hSpelled _ ih =>
    have hNone : '\n' ∉ text := fun hc => hp (hSpelled _ hc)
    obtain ⟨inner, rfl, hInner⟩ := exists_of_append_eq (not_newline_of_markupTags hTag.1) hEq
    obtain ⟨close, rfl, hClose⟩ := exists_of_append_eq hNone hInner
    obtain ⟨behind, rfl, hBehind⟩ := exists_of_append_eq (not_newline_of_markupTags closingTag_mem) hClose
    exact .span hTag hText hSpelled (ih hBehind)

end Marked

theorem eq_of_newline_mem_escapedChar {c : Char} (h : '\n' ∈ escapedChar c) : c = '\n' := by
  have hWritten : '\n' ∉ "&amp;".toList ∧ '\n' ∉ "&lt;".toList ∧ '\n' ∉ "&gt;".toList ∧
      '\n' ∉ "&quot;".toList ∧ '\n' ∉ "&#x27;".toList := by
    decide
  obtain ⟨hAmp, hLt, hGt, hQuote, hApostrophe⟩ := hWritten
  unfold escapedChar at h
  split at h
  · exact absurd h hAmp
  · split at h
    · exact absurd h hLt
    · split at h
      · exact absurd h hGt
      · split at h
        · exact absurd h hQuote
        · split at h
          · exact absurd h hApostrophe
          · exact (List.mem_singleton.mp h).symm

theorem spelled_escapeChars {p : Char → Prop} {cs : List Char} (hp : ∀ c, c ≠ '\n' → p c) (h : ∀ c ∈ cs, p c) :
    ∀ c ∈ escapeChars cs, p c := by
  intro c hc
  obtain ⟨d, hd, hc⟩ := List.mem_flatMap.mp hc
  by_cases hNewline : c = '\n'
  · subst hNewline
    exact eq_of_newline_mem_escapedChar hc ▸ h d hd
  · exact hp c hNewline

end Text

/-- Markup in which all spans are closed, with text in them that is spelled with characters that have `p`. -/
def Marked (p : Char → Prop) (text : String) : Prop := Text.Marked p text.toList

namespace Marked

variable {p : Char → Prop} {text more : String}

theorem append (h : Marked p text) (h' : Marked p more) : Marked p (text ++ more) := by
  unfold Marked
  rw [String.toList_append]
  exact Text.Marked.append h h'

theorem of_not_mem (h : '<' ∉ text.toList) : Marked p text := Text.Marked.of_not_mem h

theorem escaped (cs : List Char) : Marked p (String.ofList (Text.escapeChars cs)) := by
  unfold Marked
  rw [String.toList_ofList]
  exact .of_not_mem (Text.not_mem_escapeChars cs)

theorem escape (text : String) : Marked p (escapeMarkup text) := escaped text.toList

theorem number (n : Nat) : Marked p (toString n) := by
  refine of_not_mem fun hMem => ?_
  rw [Nat.toString_eq_repr, Nat.repr, String.toList_ofList] at hMem
  have hDigit := Nat.isDigit_of_mem_toDigits (by decide) (by decide) hMem
  cases hDigit

theorem markSpan {className : String} (hTag : IsOpening ("<span class=\"" ++ className ++ "\">").toList)
    (hText : '<' ∉ text.toList) (hSpelled : ∀ c ∈ text.toList, p c) :
    Marked p (VirtualShell.markSpan className text) := by
  have hSpan := Text.Marked.span hTag hText hSpelled .nil
  unfold Marked VirtualShell.markSpan
  rw [String.toList_append, String.toList_append, List.append_assoc]
  rwa [List.append_nil] at hSpan

theorem markSpan_escape {className : String} (hTag : IsOpening ("<span class=\"" ++ className ++ "\">").toList)
    (hp : ∀ c, c ≠ '\n' → p c) {cs : List Char} (h : ∀ c ∈ cs, p c) :
    Marked p (VirtualShell.markSpan className (String.ofList (Text.escapeChars cs))) := by
  refine markSpan hTag ?_ ?_
  · rw [String.toList_ofList]
    exact Text.not_mem_escapeChars cs
  · rw [String.toList_ofList]
    exact Text.spelled_escapeChars hp h

theorem intercalate {sep : String} (hSep : '<' ∉ sep.toList) {texts : List String} (h : ∀ t ∈ texts, Marked p t) :
    Marked p (sep.intercalate texts) := by
  induction texts with
  | nil => exact Text.Marked.nil
  | cons t texts ih =>
    obtain ⟨ht, hRest⟩ := List.forall_mem_cons.mp h
    cases texts with
    | nil => simpa using ht
    | cons t' texts =>
      rw [String.intercalate_cons_cons]
      exact (ht.append (of_not_mem hSep)).append (ih hRest)

end Marked

end VirtualShell
