import Mathlib.Data.List.Forall2
import VirtualShell.Text.Markup

/-!
# Markup without its tags

Escaped text holds no angle brackets, so that the tags in markup can be told from the text around them.
`Renders` relates markup to the plain text that it stands for: without its tags the markup is the
escaped text. It is closed under everything that output is put together by.
-/
namespace VirtualShell
set_option autoImplicit false

def markupTags : List (List Char) :=
  ["<span class=\"ls-dir\">", "<span class=\"ls-exec\">", "<span class=\"grep-path\">",
    "<span class=\"grep-match\">", "</span>"].map String.toList

/-- The text without its tags; `skip` characters are still part of a tag. -/
def unmarkFrom : Nat → List Char → List Char
  | _, [] => []
  | skip + 1, _ :: cs => unmarkFrom skip cs
  | 0, c :: cs =>
    match markupTags.find? fun tag => tag.isPrefixOf (c :: cs) with
    | some tag => unmarkFrom (tag.length - 1) cs
    | none => c :: unmarkFrom 0 cs

def unmark (text : String) : String := String.ofList (unmarkFrom 0 text.toList)

theorem unmarkFrom_length (xs cs : List Char) : unmarkFrom xs.length (xs ++ cs) = unmarkFrom 0 cs := by
  induction xs with
  | nil => rfl
  | cons x xs ih => exact ih

/-- No tag begins with another one. -/
theorem eq_of_markupTags {tag tag' : List Char} (h : tag ∈ markupTags) (h' : tag' ∈ markupTags)
    (hPrefix : tag <+: tag') : tag = tag' := by
  have hAll : ∀ a ∈ markupTags, ∀ b ∈ markupTags, a.isPrefixOf b = true → a = b := by decide +kernel
  exact hAll tag h tag' h' (List.isPrefixOf_iff_prefix.mpr hPrefix)

theorem unmarkFrom_tag {tag : List Char} (h : tag ∈ markupTags) (cs : List Char) :
    unmarkFrom 0 (tag ++ cs) = unmarkFrom 0 cs := by
  have hne : ∀ a ∈ markupTags, a ≠ [] := by decide +kernel
  obtain ⟨c, rest, rfl⟩ := List.exists_cons_of_ne_nil (hne tag h)
  have hFind : markupTags.find? (fun a => a.isPrefixOf (c :: (rest ++ cs))) = some (c :: rest) := by
    cases hFound : markupTags.find? (fun a => a.isPrefixOf (c :: (rest ++ cs))) with
    | none =>
      rw [List.find?_eq_none] at hFound
      exact absurd (List.isPrefixOf_iff_prefix.mpr ⟨cs, rfl⟩) (hFound (c :: rest) h)
    | some tag' =>
      have hMem := List.mem_of_find?_eq_some hFound
      have hFits := List.find?_some hFound
      have hPrefix' : tag' <+: c :: (rest ++ cs) := List.isPrefixOf_iff_prefix.mp hFits
      have hPrefix : c :: rest <+: c :: (rest ++ cs) := ⟨cs, rfl⟩
      rcases List.prefix_or_prefix_of_prefix hPrefix' hPrefix with hLess | hLess
      · rw [eq_of_markupTags hMem h hLess]
      · rw [eq_of_markupTags h hMem hLess]
  rw [List.cons_append, unmarkFrom, hFind]
  exact unmarkFrom_length rest cs

theorem unmarkFrom_cons {c : Char} (h : c ≠ '<') (cs : List Char) :
    unmarkFrom 0 (c :: cs) = c :: unmarkFrom 0 cs := by
  have hHead : ∀ a ∈ markupTags, a.head? = some '<' := by decide +kernel
  have hNone : markupTags.find? (fun a => a.isPrefixOf (c :: cs)) = none := by
    rw [List.find?_eq_none]
    intro tag hTag hPrefix
    obtain ⟨rest, hRest⟩ := List.isPrefixOf_iff_prefix.mp hPrefix
    have hFirst := hHead tag hTag
    cases tag with
    | nil => cases hFirst
    | cons d ds =>
      obtain ⟨rfl, -⟩ := List.cons.inj hRest
      exact h (Option.some_inj.mp hFirst)
  rw [unmarkFrom, hNone]

theorem unmarkFrom_append {xs : List Char} (h : '<' ∉ xs) (cs : List Char) :
    unmarkFrom 0 (xs ++ cs) = xs ++ unmarkFrom 0 cs := by
  induction xs with
  | nil => rfl
  | cons x xs ih =>
    obtain ⟨hx, hxs⟩ := List.ne_and_not_mem_of_not_mem_cons h
    rw [List.cons_append, unmarkFrom_cons (Ne.symm hx), ih hxs, List.cons_append]

namespace Text

theorem not_mem_escapedChar (c : Char) : '<' ∉ escapedChar c := by
  have hWritten : '<' ∉ "&amp;".toList ∧ '<' ∉ "&lt;".toList ∧ '<' ∉ "&gt;".toList ∧
      '<' ∉ "&quot;".toList ∧ '<' ∉ "&#x27;".toList := by
    decide
  obtain ⟨hAmp, hLt, hGt, hQuote, hApostrophe⟩ := hWritten
  unfold escapedChar
  split
  · exact hAmp
  · split
    · exact hLt
    · rename_i hLess
      split
      · exact hGt
      · split
        · exact hQuote
        · split
          · exact hApostrophe
          · rw [List.mem_singleton]
            rintro rfl
            exact hLess rfl

theorem not_mem_escapeChars (cs : List Char) : '<' ∉ escapeChars cs := by
  intro h
  obtain ⟨c, -, hc⟩ := List.mem_flatMap.mp h
  exact not_mem_escapedChar c hc

theorem escapedChar_ne_nil (c : Char) : escapedChar c ≠ [] := by
  unfold escapedChar
  repeat' split
  all_goals exact List.cons_ne_nil _ _

theorem escapeChars_append (xs ys : List Char) : escapeChars (xs ++ ys) = escapeChars xs ++ escapeChars ys :=
  List.flatMap_append

theorem escapeChars_eq_nil_iff {cs : List Char} : escapeChars cs = [] ↔ cs = [] := by
  constructor
  · intro h
    cases cs with
    | nil => rfl
    | cons c cs =>
      obtain ⟨hHead, -⟩ := List.append_eq_nil_iff.mp (show escapedChar c ++ escapeChars cs = [] from h)
      exact absurd hHead (escapedChar_ne_nil c)
  · rintro rfl
    rfl

theorem escapeChars_of_plain {cs : List Char} (h : ∀ c ∈ cs, escapedChar c = [c]) : escapeChars cs = cs := by
  rw [escapeChars, List.flatMap_congr h, List.flatMap_singleton']

theorem escapedChar_of_isDigit {c : Char} (h : c.isDigit = true) : escapedChar c = [c] := by
  have hne : ∀ d : Char, d.isDigit = false → ¬(c == d) = true := by
    intro d hd hEq
    rw [beq_iff_eq.mp hEq, hd] at h
    cases h
  unfold escapedChar
  rw [if_neg (hne '&' (by decide)), if_neg (hne '<' (by decide)), if_neg (hne '>' (by decide)),
    if_neg (hne '\x22' (by decide)), if_neg (hne '\x27' (by decide))]

/-- Markup `m` stands for the plain text `p`, whatever follows, and is empty if the text is. -/
structure Renders (m p : List Char) : Prop where
  shown : ∀ rest, unmarkFrom 0 (m ++ rest) = escapeChars p ++ unmarkFrom 0 rest
  empty : p = [] → m = []

namespace Renders

variable {m m' p p' : List Char}

theorem nil : Renders [] [] := ⟨fun _ => rfl, fun _ => rfl⟩

theorem append (h : Renders m p) (h' : Renders m' p') : Renders (m ++ m') (p ++ p') := by
  constructor
  · intro rest
    rw [List.append_assoc, h.shown, h'.shown, escapeChars_append, List.append_assoc]
  · intro hEmpty
    obtain ⟨hp, hp'⟩ := List.append_eq_nil_iff.mp hEmpty
    rw [h.empty hp, h'.empty hp']
    rfl

theorem escape (cs : List Char) : Renders (escapeChars cs) cs :=
  ⟨fun rest => unmarkFrom_append (not_mem_escapeChars cs) rest, escapeChars_eq_nil_iff.mpr⟩

/-- Characters that escaping keeps stand for themselves. -/
theorem same {cs : List Char} (h : escapeChars cs = cs) : Renders cs cs := by
  have hEscape := escape cs
  rwa [h] at hEscape

/-- Markup may stand around any text, as long as the whole is not empty. -/
theorem enclose {first last : List Char} (hFirst : first ∈ markupTags) (hLast : last ∈ markupTags)
    (h : Renders m p) (h' : Renders m' p') (hne : p ++ p' ≠ []) :
    Renders (first ++ m ++ last ++ m') (p ++ p') := by
  constructor
  · intro rest
    rw [List.append_assoc, List.append_assoc, List.append_assoc, unmarkFrom_tag hFirst, h.shown,
      unmarkFrom_tag hLast, h'.shown, escapeChars_append, List.append_assoc]
  · exact fun hEmpty => absurd hEmpty hne

theorem eq_nil_iff (h : Renders m p) : m = [] ↔ p = [] := by
  constructor
  · rintro rfl
    have hShown := h.shown []
    exact escapeChars_eq_nil_iff.mp (by simpa [unmarkFrom] using hShown.symm)
  · exact h.empty

end Renders

end Text

def Renders (m p : String) : Prop := Text.Renders m.toList p.toList

namespace Renders

variable {m m' p p' : String}

theorem unmark (h : Renders m p) : VirtualShell.unmark m = escapeMarkup p := by
  have hShown := h.shown []
  rw [List.append_nil, unmarkFrom, List.append_nil] at hShown
  rw [VirtualShell.unmark, escapeMarkup, hShown]

theorem append (h : Renders m p) (h' : Renders m' p') : Renders (m ++ m') (p ++ p') := by
  unfold Renders
  rw [String.toList_append, String.toList_append]
  exact Text.Renders.append h h'

theorem escape (text : String) : Renders (escapeMarkup text) text := by
  unfold Renders
  rw [escapeMarkup, String.toList_ofList]
  exact .escape _

theorem ne_empty_iff (h : Renders m p) : m ≠ "" ↔ p ≠ "" := by
  have hNil := h.eq_nil_iff
  simp only [String.toList_eq_nil_iff] at hNil
  exact not_congr hNil

theorem same {text : String} (h : (text.toList.all fun c => Text.escapedChar c == [c]) = true) : Renders text text := by
  apply Text.Renders.same
  apply Text.escapeChars_of_plain
  intro c hc
  simpa using List.all_eq_true.mp h c hc

theorem number (n : Nat) : Renders (toString n) (toString n) := by
  refine same (List.all_eq_true.mpr fun c hc => beq_iff_eq.mpr (Text.escapedChar_of_isDigit ?_))
  rw [Nat.toString_eq_repr, Nat.repr, String.toList_ofList] at hc
  exact Nat.isDigit_of_mem_toDigits (by decide) (by decide) hc

theorem toList_enclosed (before m after m' : String) :
    (before ++ m ++ after ++ m').toList = before.toList ++ m.toList ++ after.toList ++ m'.toList := by
  simp only [String.toList_append]

theorem markSpan_append {className : String} (h : Renders m p)
    (hClass : ("<span class=\"" ++ className ++ "\">").toList ∈ markupTags) (h' : Renders m' p')
    (hne : p ++ p' ≠ "") : Renders (VirtualShell.markSpan className m ++ m') (p ++ p') := by
  have hLast : "</span>".toList ∈ markupTags := by decide +kernel
  have hPlain : (p ++ p').toList = p.toList ++ p'.toList := String.toList_append
  have hList : p.toList ++ p'.toList ≠ [] := by
    rw [← hPlain]
    exact fun hNil => hne (String.toList_eq_nil_iff.mp hNil)
  have hAll := Text.Renders.enclose hClass hLast h h' hList
  have hText := toList_enclosed ("<span class=\"" ++ className ++ "\">") m "</span>" m'
  unfold Renders VirtualShell.markSpan
  rw [hText, hPlain]
  exact hAll

theorem markSpan {className : String} (h : Renders m p)
    (hClass : ("<span class=\"" ++ className ++ "\">").toList ∈ markupTags) (hne : p ≠ "") :
    Renders (VirtualShell.markSpan className m) p := by
  have hNil : Renders "" "" := Text.Renders.nil
  have hAll := h.markSpan_append hClass hNil (by rwa [String.append_empty])
  rwa [String.append_empty, String.append_empty] at hAll

theorem intercalate {sep : String} (hSep : Renders sep sep) {ms ps : List String}
    (h : List.Forall₂ Renders ms ps) : Renders (sep.intercalate ms) (sep.intercalate ps) := by
  induction h with
  | nil => exact Text.Renders.nil
  | @cons m p ms ps hHead hTail ih =>
    cases hTail with
    | nil => simpa using hHead
    | @cons m' p' ms ps hNext hRest =>
      rw [String.intercalate_cons_cons, String.intercalate_cons_cons]
      exact (hHead.append hSep).append ih

theorem filter {ms ps : List String} (h : List.Forall₂ Renders ms ps) :
    List.Forall₂ Renders (ms.filter (· != "")) (ps.filter (· != "")) := by
  refine List.rel_filter ?_ h
  intro m p hRel
  have hne := hRel.ne_empty_iff
  simpa using hne

end Renders

end VirtualShell
