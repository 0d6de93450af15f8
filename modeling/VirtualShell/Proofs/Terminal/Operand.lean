import VirtualShell.Proofs.Line.Plain
import VirtualShell.Proofs.Path.Resolution
import VirtualShell.Proofs.Shell.Blocking
import VirtualShell.Proofs.Shell.Names
import VirtualShell.Proofs.Terminal.Completion

/-!
# Completed operands

A word that is completed stands on the line as it is. The shell reads the path of the entry in it, unless the name
of the entry has a blank, is a tilde, or looks like a flag.
-/
namespace VirtualShell
set_option autoImplicit false

namespace Path

variable {home cwd : String} {q mark : List Char}

theorem pieces_of_not_mem {text : String} (h : '/' ∉ text.toList) : pieces text = [text] := by
  rw [pieces, List.splitOn_eq_singleton h]
  simp

/-- A slash at its end does not matter. -/
theorem foldl_follow_operand (hq : '/' ∉ q) (hMark : mark = [] ∨ mark = ['/']) (place : List String) :
    (pieces (String.ofList (q ++ mark))).foldl follow place = follow place (String.ofList q) := by
  have hPieces : pieces (String.ofList q) = [String.ofList q] := pieces_of_not_mem (by simpa using hq)
  rcases hMark with rfl | rfl
  · rw [List.append_nil, hPieces]
    rfl
  · rw [String.ofList_append, pieces_append_slash, hPieces]
    rfl

theorem placeOf_rooted (home cwd : String) (cs : List Char) : placeOf home cwd (String.ofList ('/' :: cs)) =
    ((pieces (String.ofList cs)).foldl follow []).reverse := by
  have hPlain : expandHome home (String.ofList ('/' :: cs)) = String.ofList ('/' :: cs) := by
    refine expandHome_of_ne home ?_ ?_
    · rw [Ne, ← String.toList_inj]
      simp
    · simp
  have hPieces := pieces_append_slash "" cs
  rw [String.empty_append] at hPieces
  rw [placeOf, hPlain, hPieces, String.toList_ofList]
  rfl

theorem follow_eq_cons_iff {place : List String} {piece name : String} (hName : isPart name = true) :
    follow place piece = name :: place ↔ piece = name := by
  obtain ⟨hEmpty, hDot, hUp, -⟩ := isPart_iff.mp hName
  unfold follow
  split
  · rename_i hStay
    have hOther : piece ≠ name := by
      rintro rfl
      simp [hEmpty, hDot] at hStay
    simp [hOther]
  · split
    · rename_i hBack
      have hOther : piece ≠ name := by
        rintro rfl
        simp [hUp] at hBack
      refine iff_of_false (fun hPlace => ?_) hOther
      have hLength := congrArg List.length hPlace
      rw [List.length_tail, List.length_cons] at hLength
      omega
    · simp

end Path

namespace Completion

variable {home cwd directory : String} {word base start q mark : List Char}

theorem Splits.directory_ne (h : Splits word directory base start) : directory ≠ "" := by
  cases h with
  | bare => decide
  | rooted => decide
  | below hPlace => simpa using hPlace

/-- What is typed in the place of a name is followed from the directory. A tilde is followed to the home directory,
and a slash to the root, where they are all that is typed. -/
theorem Splits.placeOf_operand (hHome : home ≠ "") (h : Splits word directory base start) (hq : '/' ∉ q)
    (hMark : mark = [] ∨ mark = ['/']) (hFree : base = [] → q ≠ [] ∧ q ≠ ['~']) :
    Path.placeOf home cwd (String.ofList (base ++ (q ++ mark))) =
      (Path.follow (Path.placeOf home cwd directory).reverse (String.ofList q)).reverse := by
  rw [← Path.foldl_follow_operand hq hMark]
  cases h with
  | bare =>
    obtain ⟨hSome, hTilde⟩ := hFree rfl
    obtain ⟨c, cs, rfl⟩ := List.exists_cons_of_ne_nil hSome
    obtain ⟨hc, hcs⟩ := not_or.mp (mt List.mem_cons.mpr hq)
    have hHere : Path.placeOf home cwd "." = Path.split cwd :=
      (Path.placeOf_of_relative (by decide) (by decide) (by decide)).trans (List.reverse_reverse _)
    rw [hHere, List.nil_append]
    refine Path.placeOf_of_relative ?_ ?_ ?_
    · simpa using Ne.symm hc
    · rw [Ne, ← String.toList_inj]
      rcases hMark with rfl | rfl <;> simp_all
    · rw [show "~/".toList = ['~', '/'] by decide, String.toList_ofList]
      rintro ⟨rest, hRest⟩
      obtain ⟨rfl, hBehind⟩ := List.cons.inj hRest
      cases cs with
      | nil => exact hTilde rfl
      | cons d cs =>
        obtain ⟨rfl, -⟩ := List.cons.inj hBehind
        exact hcs List.mem_cons_self
  | rooted =>
    have hRoot : Path.placeOf home cwd "/" = [] := Path.placeOf_rooted home cwd []
    rw [hRoot]
    exact Path.placeOf_rooted home cwd (q ++ mark)
  | @below place start hPlace hStart =>
    have hText : String.ofList (place ++ ['/'] ++ (q ++ mark)) =
        String.ofList place ++ "/" ++ String.ofList (q ++ mark) := by
      apply String.toList_inj.mp
      simp
    rw [hText, Path.placeOf_behind hHome (by simpa using hPlace)]

theorem Splits.operand_ne (h : Splits word directory base start) (hFree : base = [] → q ≠ []) :
    String.ofList (base ++ (q ++ mark)) ≠ "" := by
  cases h with
  | bare => simpa using fun hNil => absurd hNil (hFree rfl)
  | rooted => simp
  | below => simp

variable {s : Session} {name : String}

/-- A name in the place of a name leads to the entry, and nothing else leads there. -/
theorem Splits.resolve_operand_iff (hHome : s.home ≠ "") (hCwd : Path.isCanonical s.cwd = true)
    (h : Splits word directory base start) (hq : '/' ∉ q) (hMark : mark = [] ∨ mark = ['/'])
    (hFree : base = [] → q ≠ [] ∧ q ≠ ['~']) (hName : Path.isPart name = true) :
    s.resolve (some (String.ofList (base ++ (q ++ mark)))) = Path.join (s.resolve (some directory)) name ↔
      String.ofList q = name := by
  have hSome : String.ofList (base ++ (q ++ mark)) ≠ "" := h.operand_ne fun hBase => (hFree hBase).1
  have hParts := Path.areParts_split (Path.isCanonical_resolve s.home (some directory) hCwd)
  have hFull := Path.areParts_split
    (Path.isCanonical_resolve s.home (some (String.ofList (base ++ (q ++ mark)))) hCwd)
  rw [Path.split_resolve_some s.home s.cwd h.directory_ne] at hParts
  rw [Path.split_resolve_some s.home s.cwd hSome] at hFull
  rw [Session.resolve, Session.resolve, Path.resolve_eq_placeOf _ _ hSome, Path.resolve_eq_placeOf _ _ h.directory_ne,
    Path.join_ofParts hParts, Path.ofParts_inj hFull (hParts.concat hName), h.placeOf_operand hHome hq hMark hFree,
    List.reverse_eq_iff, List.reverse_append, List.reverse_singleton, List.singleton_append]
  exact Path.follow_eq_cons_iff hName

end Completion

namespace Session

variable {s : Session} {mark : List Char}

theorem resolve_tilde (hHome : Path.isCanonical s.home = true) (hMark : mark = [] ∨ mark = ['/']) :
    s.resolve (some (String.ofList ('~' :: mark))) = s.home := by
  have hTilde : s.resolve (some "~") = s.home := by
    have hStart := Path.absolute_of_isCanonical hHome
    have hHere : Path.expandHome s.home s.home = s.home := by
      refine Path.expandHome_of_ne s.home ?_ ?_
      · rintro hText
        rw [hText] at hStart
        exact absurd hStart (by decide)
      · rintro ⟨rest, hRest⟩
        rw [← hRest] at hStart
        exact absurd hStart (by simp)
    calc s.resolve (some "~")
      _ = s.resolve (some s.home) := by
        rw [resolve, resolve, Path.resolve_eq_placeOf _ _ (by decide),
          Path.resolve_eq_placeOf _ _ (Path.ne_empty_of_isCanonical hHome), Path.placeOf, Path.placeOf, hHere]
        rfl
      _ = s.home := Path.resolve_of_isCanonical s.home s.cwd hHome
  rcases hMark with rfl | rfl
  · exact hTilde
  · exact (Path.resolve_behind (Path.ne_empty_of_isCanonical hHome) (p := "~") (q := "") (by decide) (by decide)
      (by decide) (by decide)).trans hTilde

end Session

namespace Path

theorem join_ne_root {parent name : String} (h : isPart name = true) : join parent name ≠ "/" := by
  obtain ⟨hEmpty, -, -, hSlash⟩ := isPart_iff.mp h
  intro hRoot
  have hSplit : split (join parent name) = split parent ++ [name] := split_join hEmpty hSlash
  rw [hRoot] at hSplit
  exact absurd hSplit.symm (by simp [split_root])

theorem mem_join {parent name : String} {c : Char} (h : c ∈ name.toList) : c ∈ (join parent name).toList := by
  unfold join
  split <;>
  · rw [String.toList_append]
    exact List.mem_append_right _ h

end Path

namespace Completion

variable {s : Session} {directory name : String} {word base start q mark : List Char}

theorem Splits.of_resolve_operand (hHome : Path.isCanonical s.home = true) (hTilde : '~' ∉ s.home.toList)
    (hCwd : Path.isCanonical s.cwd = true) (h : Splits word directory base start) (hq : q <:+: name.toList)
    (hMark : mark = [] ∨ mark = ['/']) (hSome : base ++ (q ++ mark) ≠ []) (hName : Path.isPart name = true)
    (hResolve : s.resolve (some (String.ofList (base ++ (q ++ mark)))) =
      Path.join (s.resolve (some directory)) name) :
    String.ofList q = name ∧ (base = [] → name ≠ "~") := by
  have hSlash : '/' ∉ q := fun hMem => (Path.isPart_iff.mp hName).2.2.2 (hq.subset hMem)
  by_cases hFree : base = [] → q ≠ [] ∧ q ≠ ['~']
  · have hSame := (h.resolve_operand_iff (Path.ne_empty_of_isCanonical hHome) hCwd hSlash hMark hFree hName).mp hResolve
    refine ⟨hSame, fun hBase hText => (hFree hBase).2 ?_⟩
    rw [← String.toList_ofList (l := q), hSame, hText]
    rfl
  · exfalso
    obtain ⟨hBase, hCase⟩ := Classical.not_imp.mp hFree
    subst hBase
    by_cases hNil : q = []
    · -- only the slash is left, which leads to the root
      subst hNil
      obtain rfl : mark = ['/'] := hMark.resolve_left (by simpa using hSome)
      exact Path.join_ne_root hName (hResolve.symm.trans (Path.resolve_of_isCanonical s.home s.cwd (by decide)))
    · obtain rfl : q = ['~'] := by simpa [hNil] using hCase
      have hHere := Session.resolve_tilde (s := s) hHome hMark
      rw [List.nil_append, List.singleton_append, hHere] at hResolve
      exact hTilde (hResolve ▸ Path.mem_join (hq.subset List.mem_cons_self))

end Completion

namespace Line

/-- A word that is an argument and sets no flags. -/
def IsOperand (word : String) : Prop := (sortWord [] [] word).1 = [word]

instance (word : String) : Decidable (IsOperand word) := inferInstanceAs (Decidable (_ = _))

structure Typed (cs : List Char) : Prop where
  plain : Spelled IsPlain cs
  unbroken : Unbroken cs

instance (cs : List Char) : Decidable (Typed cs) :=
  decidable_of_iff (cs.all fun c => decide (IsPlain c) && !Text.isBlank c) <| by
    simp only [List.all_eq_true, Bool.and_eq_true, decide_eq_true_eq, Bool.not_eq_true']
    exact ⟨fun h => ⟨fun c hc => (h c hc).1, fun c hc => (h c hc).2⟩, fun h c hc => ⟨h.plain c hc, h.unbroken c hc⟩⟩

variable {base cs ds p q name : List Char} {arg : String}

theorem head?_append_ne_dash (hSome : base ≠ []) (hDash : base.head? ≠ some '-') (cs : List Char) :
    (String.ofList (base ++ cs)).toList.head? ≠ some '-' := by
  rwa [String.toList_ofList, List.head?_append_of_ne_nil base hSome]

/-- The one argument of a text that begins with `base` begins with it as well. -/
theorem exists_of_sole_argument (hBase : Typed base) (hDash : base.head? ≠ some '-') (hcs : Spelled IsPlain cs)
    (h : (sortWords [] [] ((words (base ++ cs)).map String.ofList)).1 = [arg]) :
    ∃ p, arg = String.ofList (base ++ p) ∧ base ++ p ≠ [] ∧ p <:+: cs ∧ Unbroken p := by
  by_cases hSome : base = []
  · subst hSome
    have hArg : arg ∈ (sortWords [] [] ((words cs).map String.ofList)).1 := by
      rw [List.nil_append] at h
      simp [h]
    obtain ⟨v, hv, rfl⟩ := List.mem_map.mp ((sortWords_subset [] [] _ arg hArg).resolve_left List.not_mem_nil)
    obtain ⟨hInfix, hNotNil, hUnbroken⟩ := infix_of_mem_words hcs hv
    exact ⟨v, rfl, hNotNil, hInfix, hUnbroken⟩
  · obtain ⟨p, rest, hWords, hPrefix, hUnbroken⟩ := exists_words_append hBase.plain hBase.unbroken hSome hcs
    rw [hWords, List.map_cons, sortWords, sortWord_of_ne_dash (head?_append_ne_dash hSome hDash p)] at h
    have hFirst := subset_fst_sortWords [String.ofList (base ++ p)] [] (rest.map String.ofList) List.mem_cons_self
    rw [List.nil_append] at h
    rw [h] at hFirst
    refine ⟨p, (List.mem_singleton.mp hFirst).symm, ?_, hPrefix.isInfix, hUnbroken⟩
    exact List.append_ne_nil_of_left_ne_nil hSome p

/-- What stands in a name and the character behind it. -/
theorem exists_of_infix_concat {c : Char} (h : p <:+: cs ++ [c]) (hUnbroken : Unbroken p)
    (hc : c = '/' ∨ Text.isBlank c = true) :
    ∃ q mark, p = q ++ mark ∧ q <:+: cs ∧ (mark = [] ∨ mark = ['/']) := by
  rcases List.infix_concat_iff.mp h with hSuffix | hInside
  · rcases List.suffix_concat_iff.mp hSuffix with rfl | ⟨q, rfl, hq⟩
    · exact ⟨[], [], rfl, List.nil_infix, .inl rfl⟩
    · rcases hc with rfl | hBlank
      · exact ⟨q, ['/'], rfl, hq.isInfix, .inr rfl⟩
      · have hNone : Text.isBlank c = false := hUnbroken c (List.mem_append_right _ List.mem_cons_self)
        rw [hBlank] at hNone
        cases hNone
  · exact ⟨p, [], (List.append_nil p).symm, hInside, .inl rfl⟩

theorem words_command (hCommand : Typed name) (hSome : name ≠ []) (cs : List Char) :
    words (name ++ ' ' :: cs) = name :: words cs := by
  rw [words_append_separator (run_of_plain hCommand.plain) (by decide),
    words_of_unbroken hCommand.plain hCommand.unbroken hSome]
  rfl

theorem words_append_space (h : Typed cs) (hSome : cs ≠ []) : words (cs ++ [' ']) = [cs] := by
  rw [words_append_blanks (run_of_plain h.plain) (by decide), words_of_unbroken h.plain h.unbroken hSome]

end Line

theorem Path.isPlain_of_not_isUnsafe {c : Char} (h : isUnsafe c = false) : Line.IsPlain c := by
  refine ⟨?_, ?_, ?_, ?_, ?_⟩
  all_goals
    rintro rfl
    revert h
    decide

theorem plain_of_properName {p : Char → Prop} {name : String} (h : ProperName p name) :
    Line.Spelled Line.IsPlain name.toList := by
  intro c hc
  rcases h with hSafe | ⟨hAccount, -⟩
  · exact Path.isPlain_of_not_isUnsafe (hasUnsafe_eq_false_iff.mp hSafe c hc)
  · obtain ⟨d, ds, hName, hStart, hRest⟩ := exists_of_isAccountName hAccount
    rw [hName] at hc
    rcases List.mem_cons.mp hc with rfl | hc
    · exact Path.isPlain_of_not_isUnsafe (isUnsafe_of_isNameChar (by simp [isNameChar, hStart]))
    · rcases hRest c hc with hChar | rfl
      · exact Path.isPlain_of_not_isUnsafe (isUnsafe_of_isNameChar hChar)
      · decide

namespace Completion

variable {s : Session} {directory text : String} {word base start : List Char} {es : List Node} {e : Node}

theorem Completes.sole {xs : List Candidate} {c : Completion} (h : Completes word base xs c)
    (hText : c.completed = some text) (hOptions : c.options = []) :
    ∃ x, xs = [x] ∧ text = String.ofList (x.whole base) ++ x.ending := by
  cases h with
  | none => cases hText
  | one x => exact ⟨x, rfl, (Option.some.inj hText).symm⟩
  | stays => cases hText
  | grows hSeveral =>
    rw [List.map_eq_nil_iff.mp hOptions] at hSeveral
    exact absurd hSeveral (by decide)

/-- A path with one completion has one entry that it could become. -/
theorem exists_entry_of_path (h : s.root.WellFormed) (hPath : path s word = .ok ⟨some text, []⟩) :
    ∃ directory base start es e, Splits word directory base start ∧ s.list (some directory) true = .ok es ∧
      (es.filter fun n => start.isPrefixOf n.name.toList) = [e] ∧
      text = String.ofList (base ++ e.name.toList) ++ (Candidate.ofEntry e).ending := by
  obtain ⟨directory, base, start, hSplits⟩ := exists_splits word
  rcases s.list_or_refused h (some directory) true with ⟨es, hList, -⟩ | ⟨refusal, hList⟩
  · have hChosen := path_of_list hSplits hList
    rw [hPath, Except.ok.injEq] at hChosen
    have hCompletes := completes_choose base start (marks es) " "
    rw [← hChosen, found_marks] at hCompletes
    obtain ⟨x, hOne, hText⟩ := hCompletes.sole rfl rfl
    obtain ⟨e, hEntry, rfl⟩ := List.map_eq_singleton_iff.mp hOne
    rw [Candidate.whole, Candidate.ofEntry_name] at hText
    exact ⟨directory, base, start, es, e, hSplits, hList, hEntry, hText⟩
  · rw [path_of_refused hSplits hList] at hPath
    cases hPath

/-- The slash that ends a directory is part of the operand, and the space that ends a file is not. -/
inductive Ends : List Char → Char → Prop where
  | directory : Ends ['/'] '/'
  | file : Ends [] ' '

section

variable {command mark : List Char} {name : String} {c : Char}

theorem Ends.plain (h : Ends mark c) : Line.IsPlain c := by
  cases h <;> decide

theorem Ends.words_eq (h : Ends mark c) (hWord : Line.Typed (base ++ name.toList)) (hSome : name ≠ "") :
    Line.words (base ++ (name.toList ++ [c])) = [base ++ (name.toList ++ mark)] := by
  have hName : base ++ name.toList ≠ [] := by simp [hSome]
  cases h with
  | directory =>
    refine Line.words_of_unbroken ?_ ?_ (by simp)
    · rw [← List.append_assoc]
      exact hWord.plain.append (List.forall_mem_singleton.mpr (by decide))
    · rw [← List.append_assoc]
      exact Line.Spelled.append hWord.unbroken (List.forall_mem_singleton.mpr (by decide))
  | file =>
    rw [← List.append_assoc, Line.words_append_space hWord hName, List.append_nil]

theorem Splits.read_iff (hHome : Path.isCanonical s.home = true) (hTilde : '~' ∉ s.home.toList)
    (hCwd : Path.isCanonical s.cwd = true) (h : Splits word directory base start) (hWord : Line.Typed word)
    (hDash : word.head? ≠ some '-') (hCommand : Line.Typed command) (hCommandSome : command ≠ [])
    (hName : Path.isPart name = true) (hPlain : Line.Spelled Line.IsPlain name.toList) (hEnds : Ends mark c) :
    (∃ stage redirect arg, Line.parse (String.ofList (command ++ ' ' :: (base ++ (name.toList ++ [c])))) =
        .command stage redirect ∧ stage.args = [arg] ∧
        s.resolve (some arg) = Path.join (s.resolve (some directory)) name) ↔
      Line.Unbroken name.toList ∧
        (base = [] → name ≠ "~" ∧ Line.IsOperand (String.ofList (name.toList ++ mark))) := by
  have hNameSome : name ≠ "" := (Path.isPart_iff.mp hName).1
  have hMark : mark = [] ∨ mark = ['/'] := by cases hEnds <;> simp
  have hBase : Line.Typed base := by
    rw [h.append] at hWord
    exact ⟨fun d hd => hWord.plain d (List.mem_append_left _ hd),
      fun d hd => hWord.unbroken d (List.mem_append_left _ hd)⟩
  have hBaseDash : base.head? ≠ some '-' := by
    rw [h.append] at hDash
    exact fun hHead => hDash (by rw [List.head?_append, hHead]; rfl)
  have hRest : Line.Spelled Line.IsPlain (name.toList ++ [c]) :=
    hPlain.append (List.forall_mem_singleton.mpr hEnds.plain)
  have hText := hBase.plain.append hRest
  have hSpace : Line.IsPlain ' ' := by decide
  have hParse := Line.parse_of_plain (hCommand.plain.append (List.forall_mem_cons.mpr ⟨hSpace, hText⟩))
    (Line.words_command hCommand hCommandSome _)
  have hWhole : Line.Unbroken name.toList →
      Line.words (base ++ (name.toList ++ [c])) = [base ++ (name.toList ++ mark)] :=
    fun hUnbroken => hEnds.words_eq ⟨hBase.plain.append hPlain, Line.Spelled.append hBase.unbroken hUnbroken⟩ hNameSome
  rw [hParse]
  constructor
  · rintro ⟨stage, redirect, arg, hStage, hArgs, hResolve⟩
    cases hStage
    obtain ⟨p, rfl, hSome, hInfix, hUnbroken⟩ := Line.exists_of_sole_argument hBase hBaseDash hRest hArgs
    obtain ⟨q, mark', rfl, hq, hMark'⟩ := Line.exists_of_infix_concat hInfix hUnbroken (by cases hEnds <;> decide)
    obtain ⟨rfl, hFree⟩ := h.of_resolve_operand hHome hTilde hCwd hq hMark' hSome hName hResolve
    rw [String.toList_ofList] at hWhole hArgs ⊢
    have hNameUnbroken : Line.Unbroken q := fun d hd => hUnbroken d (List.mem_append_left _ hd)
    refine ⟨hNameUnbroken, fun hNil => ⟨hFree hNil, ?_⟩⟩
    subst hNil
    rw [hWhole hNameUnbroken] at hArgs
    have hArg := Line.sortWord_subset [] [] (String.ofList (q ++ mark)) _ (hArgs ▸ List.mem_singleton_self _)
    rw [hArg.resolve_left List.not_mem_nil] at hArgs
    exact hArgs
  · rintro ⟨hUnbroken, hFree⟩
    refine ⟨_, _, String.ofList (base ++ (name.toList ++ mark)), rfl, ?_, ?_⟩
    · rw [hWhole hUnbroken]
      by_cases hNil : base = []
      · subst hNil
        exact (hFree rfl).2
      · exact congrArg Prod.fst (Line.sortWord_of_ne_dash (Line.head?_append_ne_dash hNil hBaseDash _) [] [])
    · have hSlash := (Path.isPart_iff.mp hName).2.2.2
      refine (h.resolve_operand_iff (Path.ne_empty_of_isCanonical hHome) hCwd hSlash hMark ?_ hName).mpr
        String.ofList_toList
      refine fun hNil => ⟨mt String.toList_eq_nil_iff.mp hNameSome, fun hText => (hFree hNil).1 ?_⟩
      rw [← String.ofList_toList (s := name), hText]

end

theorem ends_ofEntry (base : List Char) (e : Node) : ∃ c, Ends (Candidate.ofEntry e).mark.toList c ∧
    (String.ofList (base ++ e.name.toList) ++ (Candidate.ofEntry e).ending).toList =
      base ++ (e.name.toList ++ [c]) := by
  have hText : ∀ c, (String.ofList (base ++ e.name.toList) ++ String.ofList [c]).toList =
      base ++ (e.name.toList ++ [c]) := by simp
  unfold Candidate.ofEntry
  split
  · exact ⟨'/', (by decide : "/".toList = ['/']) ▸ .directory, hText '/'⟩
  · exact ⟨' ', .file, hText ' '⟩

end Completion

namespace Session

variable {s : Session} {path : PathArg} {hidden : Bool} {es : List Node} {e : Node}

/-- What is listed stands in the tree. -/
theorem lookup_of_list (h : s.root.WellFormed) (hList : s.list path hidden = .ok es) (he : e ∈ es) :
    s.lookup (Path.join (s.resolve path) e.name) = some e := by
  obtain ⟨n, hn, hList⟩ := Result.exists_of_bind_ok hList
  obtain ⟨may, -, hList⟩ := Result.exists_of_bind_ok hList
  split at hList
  · cases hList
    have hNode : s.root.get? (Path.split (s.resolve path)) = some n := (lookup_of_reachDirectory hn).1
    obtain ⟨hChild, hName⟩ := (h.get? hNode).intact.child e (List.mem_of_mem_filter he)
    obtain ⟨hEmpty, -, -, hSlash⟩ := Path.isPart_iff.mp hName
    rw [lookup, Path.split_join hEmpty hSlash, Node.get?_concat, hNode]
    exact hChild
  · cases hList

end Session

namespace Shell

open Session Completion

variable {sh : Shell}

theorem Reached.tilde_not_mem_home (h : Reached sh) : '~' ∉ sh.session.home.toList := by
  have hUsual : ∀ username, isAccountName username = true → '~' ∉ ("/home/" ++ username).toList := by
    intro username hAccount
    obtain ⟨c, cs, hName, hStart, hRest⟩ := exists_of_isAccountName hAccount
    rw [String.toList_append, hName, List.mem_append, List.mem_cons]
    rintro (hMem | rfl | hMem)
    · revert hMem
      decide
    · revert hStart
      decide
    · rcases hRest _ hMem with hChar | hChar
      · revert hChar
        decide
      · cases hChar
  have hHomes := h.allHomes (Q := fun home => '~' ∉ home.toList) (by decide) hUsual
  obtain ⟨a, ha⟩ := Option.isSome_iff_exists.mp h.housed.grounded.accounts.user
  rw [Session.home, account?, ha]
  exact hHomes a (Roster.find?_eq_some_iff.mp ha).1

/-- A word with one completion becomes the name of an entry in the directory that it names. The shell reads the path
of this entry, unless the name has a blank or, where nothing stands before it, is a tilde or no operand. -/
theorem Reached.completed_operand_exact (h : Reached sh) {command word : List Char} {text : String}
    (hCommand : Line.Typed command) (hSome : command ≠ []) (hWord : Line.Typed word) (hDash : word.head? ≠ some '-')
    (hLine : ofLine sh.session (String.ofList (command ++ ' ' :: word)) = .ok ⟨some text, []⟩) :
    ∃ directory base start es e, Splits word directory base start ∧ sh.session.list (some directory) true = .ok es ∧
      (es.filter fun n => start.isPrefixOf n.name.toList) = [e] ∧
      sh.session.lookup (Path.join (sh.session.resolve (some directory)) e.name) = some e ∧
      text = String.ofList (base ++ e.name.toList) ++ (Candidate.ofEntry e).ending ∧
      ((∃ stage redirect arg, Line.parse (String.ofList (command ++ ' ' :: text.toList)) = .command stage redirect ∧
          stage.args = [arg] ∧ sh.session.resolve (some arg) = Path.join (sh.session.resolve (some directory)) e.name) ↔
        Line.Unbroken e.name.toList ∧
          (base = [] → e.name ≠ "~" ∧ Line.IsOperand (Candidate.ofEntry e).shown)) := by
  have hGrounded := h.housed.grounded
  have hSpace : ' ' ∉ word := fun hMem => by
    have hBlank : Text.isBlank ' ' = false := hWord.unbroken ' ' hMem
    revert hBlank
    decide
  rw [ofLine_of_eq String.toList_ofList hSpace] at hLine
  obtain ⟨directory, base, start, es, e, hSplits, hList, hEntry, rfl⟩ :=
    exists_entry_of_path hGrounded.placed.wellFormed hLine
  have he : e ∈ es := List.mem_of_mem_filter (hEntry ▸ List.mem_singleton_self e)
  have hLookup := lookup_of_list hGrounded.placed.wellFormed hList he
  have hName : Path.isPart e.name = true := by
    rcases list_or_refused hGrounded.placed.wellFormed (some directory) true with
      ⟨es', hList', hParts⟩ | ⟨refusal, hRefused⟩
    · cases hList.symm.trans hList'
      exact hParts e he
    · cases hList.symm.trans hRefused
  have hPlain := plain_of_properName ((h.by_any.spelt trivial).names.get? hLookup).here
  obtain ⟨c, hEnds, hText⟩ := ends_ofEntry base e
  have hRead := hSplits.read_iff hGrounded.home_canonical h.tilde_not_mem_home hGrounded.placed.canonical hWord hDash
    hCommand hSome hName hPlain hEnds
  have hShown : (Candidate.ofEntry e).shown = String.ofList (e.name.toList ++ (Candidate.ofEntry e).mark.toList) := by
    rw [String.ofList_append, String.ofList_toList, String.ofList_toList, Candidate.shown, Candidate.ofEntry_name]
  refine ⟨directory, base, start, es, e, hSplits, hList, hEntry, hLookup, rfl, ?_⟩
  rw [hText, hShown]
  exact hRead

/-- Notes are completed from their first letters and found where they are. -/
theorem completed_notes_read : ∃ s, Session.fresh? "user" 0.0 = some s ∧ Reached ⟨s, []⟩ ∧
    ofLine s "cat documents/no" = .ok ⟨some "documents/notes.txt ", []⟩ ∧
    ∃ stage redirect arg, Line.parse "cat documents/notes.txt " = .command stage redirect ∧ stage.args = [arg] ∧
      s.resolve (some arg) = "/home/user/documents/notes.txt" := by
  have hRun : (Session.fresh? "user" 0.0).map (fun s => ((ofLine s "cat documents/no").toOption,
      s.resolve (some "documents"))) =
      some (some ⟨some "documents/notes.txt ", []⟩, "/home/user/documents") := by
    decide +kernel
  obtain ⟨s, hFresh, hFacts⟩ := Option.map_eq_some_iff.mp hRun
  obtain ⟨hOption, hPlace⟩ := Prod.mk.inj hFacts
  have hReached : Reached ⟨s, []⟩ := .start [] hFresh
  have hLine := Result.toOption_eq_some_iff.mp hOption
  have hCommand : Line.Typed "cat".toList := by decide
  have hWord : Line.Typed "documents/no".toList := by decide
  obtain ⟨directory, base, start, es, e, hSplits, -, -, -, hText, hRead⟩ :=
    hReached.completed_operand_exact hCommand (by decide) hWord (by decide) hLine
  have hSplit : splitWord "documents/no".toList = ("documents", "documents/".toList, "no".toList) := by decide
  rw [hSplits.eq, Prod.mk.injEq, Prod.mk.injEq] at hSplit
  obtain ⟨rfl, rfl, rfl⟩ := hSplit
  obtain ⟨c, -, hChars⟩ := ends_ofEntry "documents/".toList e
  have hName : e.name = "notes.txt" := by
    rw [← hText] at hChars
    have hWhole : "documents/".toList ++ ("notes.txt".toList ++ [' ']) =
        "documents/".toList ++ (e.name.toList ++ [c]) := by
      rw [← hChars]
      decide
    have hRest := List.append_cancel_left hWhole
    exact (String.toList_inj.mp (List.append_inj' hRest rfl).1).symm
  rw [hName, hPlace] at hRead
  have hPlain : Line.Typed "notes.txt".toList := by decide
  exact ⟨s, hFresh, hReached, hLine, hRead.mpr ⟨hPlain.unbroken, nofun⟩⟩

theorem not_operand_with_blank : ¬∀ (sh : Shell) (command word : List Char) (text : String), Reached sh →
    Line.Typed command → command ≠ [] → Line.Typed word → word.head? ≠ some '-' →
    ofLine sh.session (String.ofList (command ++ ' ' :: word)) = .ok ⟨some text, []⟩ →
    ∃ stage redirect arg, Line.parse (String.ofList (command ++ ' ' :: text.toList)) = .command stage redirect ∧
      stage.args = [arg] := by
  intro hAll
  have hRun : (Session.fresh? "user" 0.0).map (fun s =>
      (ofLine (runLines ⟨s, []⟩ ["touch 'my file'"]).session "cat m").toOption) =
      some (some ⟨some "my file ", []⟩) := by
    decide +kernel
  have hParse : Line.parse "cat my file " =
      .command ⟨"cat", ["my", "file"], [], "cat my file"⟩ none := by
    decide +kernel
  obtain ⟨s, hFresh, hOption⟩ := Option.map_eq_some_iff.mp hRun
  obtain ⟨stage, redirect, arg, hCommand, hArgs⟩ := hAll (runLines ⟨s, []⟩ ["touch 'my file'"]) "cat".toList "m".toList
    "my file " ((Reached.start [] hFresh).runLines _) (by decide) (by decide) (by decide) (by decide)
    (Result.toOption_eq_some_iff.mp hOption)
  cases hParse.symm.trans hCommand
  cases hArgs

end Shell

end VirtualShell
