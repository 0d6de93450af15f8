import VirtualShell.Proofs.Session.Descent
import VirtualShell.Proofs.Session.Run
import VirtualShell.Terminal.Completion

/-!
# Completed words

A word is completed from the names that it could become, which are those of commands or of the entries of one
directory. The one name there is ends the word. Of several names the word gets what all of them begin with, and once it
has that it stays as it is.
-/
namespace VirtualShell
set_option autoImplicit false

namespace Completion

/-- Something that a word could become. -/
structure Candidate where
  name : String
  /-- What stands behind the name in a list. -/
  mark : String
  /-- What follows the name when there is no other. -/
  ending : String

namespace Candidate

def ofCommand (name : String) : Candidate := ⟨name, "", " "⟩

def ofEntry (n : Node) : Candidate := if n.isDir then ⟨n.name, "/", "/"⟩ else ⟨n.name, "", " "⟩

def ofMarked (following : String) (n : String × String) : Candidate :=
  ⟨n.1, n.2, if n.2 == "" then following else n.2⟩

theorem ofMarked_entry (n : Node) : ofMarked " " (n.name, if n.isDir then "/" else "") = ofEntry n := by
  unfold ofEntry
  cases n.isDir <;> rfl

@[simp] theorem ofEntry_name (n : Node) : (ofEntry n).name = n.name := by
  unfold ofEntry
  split <;> rfl

def shown (x : Candidate) : String := x.name ++ x.mark

def whole (base : List Char) (x : Candidate) : List Char := base ++ x.name.toList

end Candidate

/-- The longest text that all words begin with. -/
structure LongestBeginning (words : List (List Char)) (cs : List Char) : Prop where
  common : ∀ w ∈ words, cs <+: w
  longest : ∀ ds, (∀ w ∈ words, ds <+: w) → ds <+: cs

/-- How a completion follows from what the word could become, `base` being the part of it that stays. -/
inductive Completes (word base : List Char) : List Candidate → Completion → Prop where
  | none : Completes word base [] ⟨.none, []⟩
  | one (x : Candidate) : Completes word base [x] ⟨some (String.ofList (x.whole base) ++ x.ending), []⟩
  | stays {xs : List Candidate} : 2 ≤ xs.length → LongestBeginning (xs.map (·.whole base)) word →
      Completes word base xs ⟨.none, xs.map Candidate.shown⟩
  | grows {xs : List Candidate} {cs : List Char} : 2 ≤ xs.length → LongestBeginning (xs.map (·.whole base)) cs →
      word <+: cs → cs ≠ word → Completes word base xs ⟨some (String.ofList cs), xs.map Candidate.shown⟩

/-- The directory that a word names, with the beginning of the word that stays and that of a name in it. -/
inductive Splits : List Char → String → List Char → List Char → Prop where
  | bare {word : List Char} : '/' ∉ word → Splits word "." [] word
  | rooted {start : List Char} : '/' ∉ start → Splits ('/' :: start) "/" ['/'] start
  | below {place start : List Char} : place ≠ [] → '/' ∉ start →
      Splits (place ++ '/' :: start) (String.ofList place) (place ++ ['/']) start

/-- What the word behind the last space of a line could become. Where there is no space it is the name of a command. -/
inductive Offers (s : Session) (line : String) : List Char → List Char → List Candidate → Prop where
  | command : ' ' ∉ line.toList → Offers s line line.toList []
      ((Utility.names.filter fun name => line.toList.isPrefixOf name.toList).map .ofCommand)
  | path {before word base start : List Char} {directory : String} {es : List Node} :
      line.toList = before ++ ' ' :: word → ' ' ∉ word → Splits word directory base start →
      s.list (some directory) true = .ok es → Offers s line word base
      ((es.filter fun e => start.isPrefixOf e.name.toList).map .ofEntry)
  | unlisted {before word base start : List Char} {directory : String} {refusal : Refusal} :
      line.toList = before ++ ' ' :: word → ' ' ∉ word → Splits word directory base start →
      s.list (some directory) true = .error (.refused refusal) → Offers s line word base []

theorem Completes.several {word base : List Char} {xs : List Candidate} {c : Completion}
    (h : Completes word base xs c) (hOptions : c.options ≠ []) : 2 ≤ xs.length := by
  cases h with
  | none => exact absurd rfl hOptions
  | one => exact absurd rfl hOptions
  | stays hSeveral => exact hSeveral
  | grows hSeveral => exact hSeveral

theorem prefix_commonBeginning_iff {ds xs ys : List Char} : ds <+: commonBeginning xs ys ↔ ds <+: xs ∧ ds <+: ys := by
  induction ds generalizing xs ys with
  | nil => simp
  | cons d ds ih =>
    cases xs with
    | nil => simp [commonBeginning]
    | cons x xs =>
      cases ys with
      | nil => simp [commonBeginning]
      | cons y ys =>
        by_cases hxy : x = y
        · subst hxy
          simp [commonBeginning, List.cons_prefix_cons, ih, ← and_and_left]
        · simp only [commonBeginning, beq_iff_eq, hxy, if_false, List.cons_prefix_cons, List.prefix_nil, reduceCtorEq,
            false_iff, not_and, and_imp]
          rintro rfl - rfl
          exact absurd rfl hxy

theorem prefix_commonBeginnings_iff {ds : List Char} {xss : List (List Char)} (h : xss ≠ []) :
    ds <+: commonBeginnings xss ↔ ∀ xs ∈ xss, ds <+: xs := by
  induction xss with
  | nil => exact absurd rfl h
  | cons xs rest ih =>
    cases rest with
    | nil => simp [commonBeginnings]
    | cons ys rest =>
      rw [commonBeginnings, prefix_commonBeginning_iff, ih (List.cons_ne_nil _ _), ← List.forall_mem_cons]
      simp

theorem LongestBeginning.of_iff {words : List (List Char)} {cs : List Char}
    (h : ∀ ds, ds <+: cs ↔ ∀ w ∈ words, ds <+: w) : LongestBeginning words cs :=
  ⟨(h cs).mp List.prefix_rfl, fun ds => (h ds).mpr⟩

/-- A text in front of all words is in front of what they begin with. -/
theorem LongestBeginning.behind {words : List (List Char)} {cs : List Char} (h : LongestBeginning words cs)
    (hne : words ≠ []) (base : List Char) : LongestBeginning (words.map (base ++ ·)) (base ++ cs) := by
  constructor
  · intro w hw
    obtain ⟨v, hv, rfl⟩ := List.mem_map.mp hw
    exact (List.prefix_append_right_inj base).mpr (h.common v hv)
  · intro ds hds
    obtain ⟨w, hw⟩ := List.exists_mem_of_ne_nil words hne
    rcases List.prefix_or_prefix_of_prefix (hds _ (List.mem_map_of_mem hw)) (List.prefix_append base w) with
      hd | ⟨es, rfl⟩
    · exact hd.trans (List.prefix_append base cs)
    · refine (List.prefix_append_right_inj base).mpr (h.longest es fun v hv => ?_)
      exact (List.prefix_append_right_inj base).mp (hds _ (List.mem_map_of_mem hv))

section

variable {base start : List Char} {names : List (String × String)} {following : String}

abbrev found (start : List Char) (names : List (String × String)) : List (String × String) :=
  names.filter fun n => start.isPrefixOf n.1.toList

theorem mem_found {n : String × String} : n ∈ found start names ↔ n ∈ names ∧ start <+: n.1.toList := by
  simp [found]

theorem longestBeginning_found (h : found start names ≠ []) :
    LongestBeginning ((found start names).map fun n => n.1.toList)
      (commonBeginnings ((found start names).map fun n => n.1.toList)) :=
  .of_iff fun _ => prefix_commonBeginnings_iff (by simpa using h)

theorem start_prefix_common (h : found start names ≠ []) :
    start <+: commonBeginnings ((found start names).map fun n => n.1.toList) := by
  refine (longestBeginning_found h).longest start fun w hw => ?_
  obtain ⟨n, hn, rfl⟩ := List.mem_map.mp hw
  exact (mem_found.mp hn).2

/-- The names that begin with all that the found ones have in common are the found ones. -/
theorem found_common (h : found start names ≠ []) :
    found (commonBeginnings ((found start names).map fun n => n.1.toList)) names = found start names := by
  refine List.filter_congr fun n hn => ?_
  rw [Bool.eq_iff_iff, List.isPrefixOf_iff_prefix, List.isPrefixOf_iff_prefix]
  constructor
  · exact (start_prefix_common h).trans
  · exact fun hStart => (longestBeginning_found h).common _ (List.mem_map_of_mem (mem_found.mpr ⟨hn, hStart⟩))

theorem choose_of_several (h : 2 ≤ (found start names).length) : choose base start names following =
    ⟨if commonBeginnings ((found start names).map fun n => n.1.toList) = start then .none else
        some (String.ofList (base ++ commonBeginnings ((found start names).map fun n => n.1.toList))),
      (found start names).map fun n => n.1 ++ n.2⟩ := by
  unfold choose
  split
  · simp_all [found]
  · simp_all [found]
  · simp [found]

theorem map_whole (following : String) (base : List Char) (ns : List (String × String)) :
    (ns.map (Candidate.ofMarked following)).map (·.whole base) = (ns.map fun n => n.1.toList).map (base ++ ·) := by
  simp [Candidate.whole, Candidate.ofMarked]

theorem map_shown (following : String) (ns : List (String × String)) :
    (ns.map (Candidate.ofMarked following)).map Candidate.shown = ns.map fun n => n.1 ++ n.2 := by
  simp [Candidate.shown, Candidate.ofMarked]

theorem completes_choose (base start : List Char) (names : List (String × String)) (following : String) :
    Completes (base ++ start) base ((found start names).map (.ofMarked following))
      (choose base start names following) := by
  rcases hFound : found start names with _ | ⟨n, _ | ⟨m, rest⟩⟩
  · rw [choose, show names.filter _ = [] from hFound]
    exact .none
  · rw [choose, show names.filter _ = [n] from hFound]
    have hText : String.ofList (base ++ n.1.toList) = String.ofList base ++ n.1 := by simp
    have hOne : Completes (base ++ start) base _ _ := Completes.one (Candidate.ofMarked following n)
    rw [Candidate.whole, Candidate.ofMarked, hText] at hOne
    exact hOne
  · rw [← hFound]
    have hLength : 2 ≤ (found start names).length := by simp [hFound]
    have hne : found start names ≠ [] := by simp [hFound]
    have hLongest := (longestBeginning_found hne).behind (by simpa using hne) base
    rw [choose_of_several hLength, ← map_shown following]
    rw [← map_whole following] at hLongest
    split
    · rename_i hSame
      rw [hSame] at hLongest
      exact .stays (by simpa using hLength) hLongest
    · rename_i hMore
      refine .grows (by simpa using hLength) hLongest ?_ (by simpa using hMore)
      exact (List.prefix_append_right_inj base).mpr (start_prefix_common hne)

/-- A word that has got what several names begin with stays as it is. -/
theorem choose_again {text : String} (h : 2 ≤ (found start names).length)
    (hText : (choose base start names following).completed = some text) :
    ∃ cs, text.toList = base ++ cs ∧ (∃ n ∈ names, cs <+: n.1.toList) ∧
      choose base cs names following = ⟨.none, (choose base start names following).options⟩ := by
  have hne : found start names ≠ [] := by
    rintro hNil
    simp [hNil] at h
  rw [choose_of_several h] at hText ⊢
  dsimp only at hText ⊢
  split at hText
  · cases hText
  · cases hText
    obtain ⟨n, hn⟩ := List.exists_mem_of_ne_nil _ hne
    refine ⟨_, String.toList_ofList, ⟨n, (mem_found.mp hn).1, ?_⟩, ?_⟩
    · exact (longestBeginning_found hne).common _ (List.mem_map_of_mem hn)
    · rw [choose_of_several (by rwa [found_common hne]), found_common hne, if_pos rfl]

end

section

variable {s : Session} {line directory : String} {before word base start cs : List Char}

theorem ofLine_of_not_mem (h : ' ' ∉ line.toList) : ofLine s line = .ok (command line.toList) := by
  rw [ofLine, List.splitOn_eq_singleton h]

theorem ofLine_of_eq (hLine : line.toList = before ++ ' ' :: word) (hWord : ' ' ∉ word) :
    ofLine s line = path s word := by
  rw [ofLine, hLine, List.splitOn_append_cons_self, List.splitOn_eq_singleton hWord]
  split
  · rename_i hPieces
    exact absurd hPieces (by simp)
  · rename_i hPieces
    exact absurd (List.append_eq_singleton_iff.mp hPieces) (by simp [List.splitOn_ne_nil])
  · rw [List.getLast?_concat, Option.getD_some]

theorem exists_last_word {cs : List Char} (h : ' ' ∈ cs) : ∃ before word, cs = before ++ ' ' :: word ∧ ' ' ∉ word := by
  obtain ⟨word, before, hReverse, hWord⟩ := List.eq_append_cons_of_mem (List.mem_reverse.mpr h)
  refine ⟨before.reverse, word.reverse, ?_, by simpa using hWord⟩
  simpa using congrArg List.reverse hReverse

theorem splitWord_below {place : List Char} (h : '/' ∉ start) : splitWord (place ++ '/' :: start) =
    (if place.isEmpty then "/" else String.ofList place, place ++ ['/'], start) := by
  have hStart : ((place ++ '/' :: start).reverse.takeWhile (· != '/')).reverse = start := by
    rw [List.reverse_append, List.reverse_cons, List.append_assoc, List.takeWhile_append_of_pos]
    · simp
    · rintro c hc
      simpa using ne_of_mem_of_not_mem (List.mem_reverse.mp hc) h
  have hLength : (place ++ '/' :: start).length - start.length = (place ++ ['/']).length := by
    simp only [List.length_append, List.length_cons, List.length_nil]
    omega
  have hBase : (place ++ '/' :: start).take (place ++ ['/']).length = place ++ ['/'] := by
    rw [List.append_cons place '/' start, List.take_left]
  rw [splitWord, if_pos (by simp)]
  simp only [hStart, hLength, hBase, List.dropLast_concat]

theorem Splits.eq (h : Splits word directory base start) : splitWord word = (directory, base, start) := by
  cases h with
  | bare hSlash => simp [splitWord, hSlash]
  | @rooted start hSlash =>
    have hBelow : splitWord ([] ++ '/' :: start) = _ := splitWord_below hSlash
    simpa using hBelow
  | @below place start hPlace hSlash =>
    have hBelow : splitWord (place ++ '/' :: start) = _ := splitWord_below hSlash
    simpa [hPlace] using hBelow

theorem exists_splits (word : List Char) : ∃ directory base start, Splits word directory base start := by
  by_cases hSlash : '/' ∈ word
  · obtain ⟨start, place, hReverse, hStart⟩ := List.eq_append_cons_of_mem (List.mem_reverse.mpr hSlash)
    have hWord : word = place.reverse ++ '/' :: start.reverse := by simpa using congrArg List.reverse hReverse
    have hNotMem : '/' ∉ start.reverse := by simpa using hStart
    subst hWord
    cases hPlace : place.reverse with
    | nil => exact ⟨_, _, _, .rooted hNotMem⟩
    | cons c cs => exact ⟨_, _, _, .below (List.cons_ne_nil c cs) hNotMem⟩
  · exact ⟨_, _, _, .bare hSlash⟩

theorem Splits.append (h : Splits word directory base start) : word = base ++ start := by
  cases h <;> simp

/-- The directory does not depend on what is typed of a name in it. -/
theorem Splits.retype (h : Splits word directory base start) (hcs : '/' ∉ cs) :
    Splits (base ++ cs) directory base cs := by
  cases h with
  | bare => exact .bare hcs
  | rooted => exact .rooted hcs
  | below hPlace => simpa using Splits.below hPlace hcs

end

end Completion

namespace Session

variable {s : Session}

/-- A directory is listed, or the subject is told what keeps it from being listed. -/
theorem list_or_refused (h : s.root.WellFormed) (path : PathArg) (hidden : Bool) :
    (∃ es, s.list path hidden = .ok es ∧ ∀ e ∈ es, Path.isPart e.name = true) ∨
      ∃ refusal, s.list path hidden = .error (.refused refusal) := by
  unfold list reachDirectory
  cases hReach : s.reach (s.resolve path) path with
  | error fault =>
    obtain ⟨o, -, rfl⟩ := (Subject.reach_eq_error_iff h).mp hReach
    exact .inr ⟨_, rfl⟩
  | ok n =>
    have hn : n.WellFormed := h.get? (Subject.reach_eq_ok_iff.mp hReach).1
    rw [Result.ok_bind]
    cases n.isDir with
    | false => exact .inr ⟨_, rfl⟩
    | true =>
      rw [if_pos rfl, pure_bind, Subject.mayAll_eq hn.info_valid, Result.ok_bind]
      split
      · exact .inl ⟨_, rfl, fun e he => hn.isPart_name (List.mem_of_mem_filter he)⟩
      · exact .inr ⟨_, rfl⟩

end Session

namespace Completion

variable {s : Session} {directory text : String} {word base start : List Char} {es : List Node}

abbrev marks (es : List Node) : List (String × String) := es.map fun n => (n.name, if n.isDir then "/" else "")

theorem found_commands (start : List Char) : (found start (Utility.names.map (·, ""))).map (.ofMarked " ") =
    (Utility.names.filter fun name => start.isPrefixOf name.toList).map Candidate.ofCommand := by
  rw [found, List.filter_map, List.map_map]
  rfl

theorem found_marks (start : List Char) (es : List Node) : (found start (marks es)).map (.ofMarked " ") =
    (es.filter fun e => start.isPrefixOf e.name.toList).map Candidate.ofEntry := by
  rw [found, List.filter_map, List.map_map]
  exact List.map_congr_left fun e _ => Candidate.ofMarked_entry e

theorem path_of_list (hSplits : Splits word directory base start) (hList : s.list (some directory) true = .ok es) :
    path s word = .ok (choose base start (marks es) " ") := by
  rw [path, hSplits.eq]
  dsimp only
  rw [hList]

theorem path_of_refused {refusal : Refusal} (hSplits : Splits word directory base start)
    (hList : s.list (some directory) true = .error (.refused refusal)) : path s word = .ok none := by
  rw [path, hSplits.eq]
  dsimp only
  rw [hList]

theorem command_again (h : 2 ≤ (found start (Utility.names.map (·, ""))).length)
    (hText : (command start).completed = some text) : command text.toList = ⟨.none, (command start).options⟩ := by
  obtain ⟨cs, rfl, -, hAgain⟩ := choose_again h hText
  exact hAgain

theorem path_again (hSplits : Splits word directory base start) (hList : s.list (some directory) true = .ok es)
    (hParts : ∀ e ∈ es, Path.isPart e.name = true) (h : 2 ≤ (found start (marks es)).length)
    (hText : (choose base start (marks es) " ").completed = some text) :
    path s text.toList = .ok ⟨.none, (choose base start (marks es) " ").options⟩ := by
  obtain ⟨cs, hWord, ⟨n, hn, hPrefix⟩, hAgain⟩ := choose_again h hText
  -- what is common to names of entries has no slash, so that the same directory is listed again
  have hSlash : '/' ∉ cs := by
    obtain ⟨e, he, rfl⟩ := List.mem_map.mp hn
    exact fun hMem => (Path.isPart_iff.mp (hParts e he)).2.2.2 (hPrefix.subset hMem)
  rw [hWord, path_of_list (hSplits.retype hSlash) hList, hAgain]

end Completion

/-- What a word is completed to and what it could become, for the first word of a line among the commands and for any
other among the entries of the directory that it names. A text that several candidates complete to stays as it is. -/
theorem Session.TreeSound.complete_exact {s : Session} (h : s.TreeSound) (line : String) :
    ∃ word base candidates c, Completion.ofLine s line = .ok c ∧ Completion.Offers s line word base candidates ∧
      Completion.Completes word base candidates c ∧
      ∀ text, 2 ≤ candidates.length → c.completed = some text →
        (if ' ' ∈ line.toList then Completion.path s text.toList else .ok (Completion.command text.toList)) =
          .ok ⟨.none, c.options⟩ := by
  by_cases hSpace : ' ' ∈ line.toList
  · obtain ⟨before, word, hLine, hWord⟩ := Completion.exists_last_word hSpace
    obtain ⟨directory, base, start, hSplits⟩ := Completion.exists_splits word
    simp only [Completion.ofLine_of_eq hLine hWord, hSpace, if_true]
    rcases Session.list_or_refused h.wellFormed (some directory) true with ⟨es, hList, hParts⟩ | ⟨refusal, hList⟩
    · refine ⟨_, _, _, _, Completion.path_of_list hSplits hList, .path hLine hWord hSplits hList, ?_, ?_⟩
      · rw [← Completion.found_marks, hSplits.append]
        exact Completion.completes_choose base start _ _
      · rintro text hSeveral hText
        rw [← Completion.found_marks, List.length_map] at hSeveral
        exact Completion.path_again hSplits hList hParts hSeveral hText
    · exact ⟨_, _, _, _, Completion.path_of_refused hSplits hList, .unlisted hLine hWord hSplits hList, .none, nofun⟩
  · simp only [hSpace, if_false]
    refine ⟨_, _, _, _, Completion.ofLine_of_not_mem hSpace, .command hSpace, ?_, ?_⟩
    · rw [← Completion.found_commands]
      exact Completion.completes_choose [] line.toList _ _
    · rintro text hSeveral hText
      rw [← Completion.found_commands, List.length_map] at hSeveral
      rw [Completion.command_again hSeveral hText]

/-- Both files begin with more than what was typed, and that much is typed for the user. -/
theorem Session.complete_two_files : ∃ s, (Session.fresh? "user" 0.0).map
      (·.perform [.createFile (some "ab1") "", .createFile (some "ab2") ""]) = some s ∧ s.TreeSound ∧
    Completion.ofLine s "cat a" = .ok ⟨some "ab", ["ab1", "ab2"]⟩ ∧
    Completion.path s "ab".toList = .ok ⟨.none, ["ab1", "ab2"]⟩ := by
  have hRun : (Session.fresh? "user" 0.0).map (fun s => (Completion.ofLine
      (s.perform [.createFile (some "ab1") "", .createFile (some "ab2") ""]) "cat a").toOption) =
      some (some ⟨some "ab", ["ab1", "ab2"]⟩) := by
    decide +kernel
  obtain ⟨s, hFresh, hOption⟩ := Option.map_eq_some_iff.mp hRun
  have hTree := ((Reached.start hFresh).perform
    [.createFile (some "ab1") "", .createFile (some "ab2") ""]).inv.sound.tree
  obtain ⟨word, base, candidates, c, hLine, -, hCompletes, hAgain⟩ := hTree.complete_exact "cat a"
  rw [hLine] at hOption
  cases hOption
  refine ⟨_, congrArg _ hFresh, hTree, hLine, ?_⟩
  rw [← hAgain "ab" (hCompletes.several (List.cons_ne_nil _ _)) rfl, if_pos (by decide)]

/-- Blanks in front of the first word of a line make a path of it. -/
theorem Completion.not_command_behind_blanks : ¬∀ (s : Session) (blanks word : List Char), s.TreeSound →
    (∀ c ∈ blanks, c = ' ') → ' ' ∉ word →
    Completion.ofLine s (String.ofList (blanks ++ word)) = .ok (Completion.command word) := by
  intro hAll
  have hRun : (Session.fresh? "user" 0.0).map (fun s => (Completion.ofLine s " pw").toOption) =
      some (some Completion.none) := by
    decide +kernel
  have hCommand : Completion.command "pw".toList = ⟨some "pwd ", []⟩ := by decide +kernel
  obtain ⟨s, hFresh, hPath⟩ := Option.map_eq_some_iff.mp hRun
  have hLine := hAll s [' '] "pw".toList (Session.Reached.start hFresh).inv.sound.tree (by simp) (by decide)
  rw [show String.ofList ([' '] ++ "pw".toList) = " pw" by decide, hCommand] at hLine
  rw [hLine] at hPath
  cases hPath

end VirtualShell
