import VirtualShell.Path

/-!
# Texts and parts of a path

A canonical path and the list of its parts determine each other, so that what is said about texts can
be said about lists: `split_ofParts` and `isCanonical_iff` go back and forth, and `isWithin_iff`
turns the test on texts into a prefix of lists. `isCanonical_resolve` is the reason why paths that
were resolved can be treated so.
-/
namespace VirtualShell.Path
set_option autoImplicit false

def AreParts (parts : List String) : Prop := ∀ p ∈ parts, isPart p = true

theorem isPart_iff {part : String} :
    isPart part = true ↔ part ≠ "" ∧ part ≠ "." ∧ part ≠ ".." ∧ '/' ∉ part.toList := by
  simp [isPart, and_assoc]

/-- A piece has the characters of the text, but for the one that separates the pieces. -/
theorem of_mem_splitOn {c d : Char} {cs piece : List Char} (h : piece ∈ cs.splitOn c) (hd : d ∈ piece) :
    d ∈ cs ∧ d ≠ c := by
  induction cs generalizing piece with
  | nil =>
    rw [List.mem_singleton.mp h] at hd
    cases hd
  | cons e cs ih =>
    have hLater (later : List Char) (hLater : later ∈ cs.splitOn c) (hd : d ∈ later) : d ∈ e :: cs ∧ d ≠ c :=
      ⟨List.mem_cons_of_mem e (ih hLater hd).1, (ih hLater hd).2⟩
    rw [List.splitOn_cons_eq_if_modifyHead] at h
    split at h
    · rcases List.mem_cons.mp h with rfl | h
      · cases hd
      · exact hLater piece h hd
    · rename_i hOther
      obtain ⟨first, rest, hSplit⟩ := List.exists_cons_of_ne_nil (List.splitOn_ne_nil c cs)
      rw [hSplit] at h hLater
      rcases List.mem_cons.mp h with rfl | h
      · rcases List.mem_cons.mp hd with rfl | hd
        · exact ⟨List.mem_cons_self, fun hSame => hOther (beq_iff_eq.mpr hSame)⟩
        · exact hLater first List.mem_cons_self hd
      · exact hLater piece (List.mem_cons_of_mem first h) hd

theorem not_slash_of_mem_pieces {path part : String} (h : part ∈ pieces path) : '/' ∉ part.toList := by
  obtain ⟨cs, hcs, rfl⟩ := List.mem_map.mp h
  rw [String.toList_ofList]
  exact fun hSlash => (of_mem_splitOn hcs hSlash).2 rfl

theorem toList_ofParts (parts : List String) :
    (ofParts parts).toList = '/' :: ['/'].intercalate (parts.map String.toList) := by
  simp [ofParts]

theorem pieces_ofParts {parts : List String} (hne : parts ≠ []) (h : ∀ p ∈ parts, '/' ∉ p.toList) :
    pieces (ofParts parts) = "" :: parts := by
  have hSlash : ∀ cs ∈ parts.map String.toList, '/' ∉ cs := by simpa using h
  have hSplit := List.splitOn_append_cons_self_of_not_mem (a := '/') List.not_mem_nil
    (['/'].intercalate (parts.map String.toList))
  rw [List.nil_append, List.splitOn_intercalate '/' hSlash (by simpa using hne)] at hSplit
  rw [pieces, toList_ofParts, hSplit]
  simp [Function.comp_def]

/-- A text made of parts is split into them again. -/
theorem split_ofParts_of_ne {parts : List String} (h : ∀ p ∈ parts, p ≠ "" ∧ '/' ∉ p.toList) :
    split (ofParts parts) = parts := by
  by_cases hne : parts = []
  · subst hne
    rfl
  · rw [split, pieces_ofParts hne fun p hp => (h p hp).2, List.filter_cons_of_neg (by simp)]
    exact List.filter_eq_self.mpr fun p hp => by simpa using (h p hp).1

namespace AreParts

theorem nil : AreParts [] := by simp [AreParts]

theorem cons {p : String} {ps : List String} (hp : isPart p = true) (h : AreParts ps) :
    AreParts (p :: ps) := by
  simpa [AreParts, hp] using h

theorem append {ps qs : List String} (hp : AreParts ps) (hq : AreParts qs) : AreParts (ps ++ qs) := by
  intro p h
  rcases List.mem_append.mp h with h | h
  · exact hp p h
  · exact hq p h

theorem concat {ps : List String} {p : String} (h : AreParts ps) (hp : isPart p = true) :
    AreParts (ps ++ [p]) :=
  h.append (nil.cons hp)

theorem left {ps qs : List String} (h : AreParts (ps ++ qs)) : AreParts ps :=
  fun p hp => h p (List.mem_append_left _ hp)

theorem right {ps qs : List String} (h : AreParts (ps ++ qs)) : AreParts qs :=
  fun p hp => h p (List.mem_append_right _ hp)

theorem ne_and_not_slash {ps : List String} (h : AreParts ps) : ∀ p ∈ ps, p ≠ "" ∧ '/' ∉ p.toList := by
  intro p hp
  obtain ⟨hne, -, -, hSlash⟩ := isPart_iff.mp (h p hp)
  exact ⟨hne, hSlash⟩

end AreParts

@[simp] theorem ofParts_nil : ofParts [] = "/" := rfl

@[simp] theorem split_root : split "/" = [] := rfl

@[simp] theorem split_empty : split "" = [] := rfl

section

variable {ps qs : List String}

theorem split_ofParts (h : AreParts ps) : split (ofParts ps) = ps := split_ofParts_of_ne h.ne_and_not_slash

theorem ofParts_inj (hp : AreParts ps) (hq : AreParts qs) : ofParts ps = ofParts qs ↔ ps = qs := by
  constructor
  · intro h
    rw [← split_ofParts hp, h, split_ofParts hq]
  · rintro rfl
    rfl

theorem ofParts_eq_root (h : AreParts ps) : ofParts ps = "/" ↔ ps = [] := ofParts_inj h .nil

theorem isCanonical_ofParts (h : AreParts ps) : isCanonical (ofParts ps) = true := by
  simpa [isCanonical, split_ofParts h, AreParts] using h

theorem isCanonical_iff {path : String} :
    isCanonical path = true ↔ ∃ ps, AreParts ps ∧ path = ofParts ps := by
  constructor
  · intro h
    obtain ⟨hText, hParts⟩ := Bool.and_eq_true_iff.mp h
    exact ⟨split path, by simpa [AreParts] using hParts, (beq_iff_eq.mp hText).symm⟩
  · rintro ⟨ps, hps, rfl⟩
    exact isCanonical_ofParts hps

theorem ne_empty_of_isCanonical {path : String} (h : isCanonical path = true) : path ≠ "" := by
  rintro rfl
  revert h
  decide

theorem absolute_of_isCanonical {path : String} (h : isCanonical path = true) : path.toList.head? = some '/' := by
  obtain ⟨ps, -, rfl⟩ := isCanonical_iff.mp h
  rw [toList_ofParts]
  rfl

theorem parentOf_ofParts (h : AreParts ps) : parentOf (ofParts ps) = ofParts ps.dropLast := by
  rw [parentOf, split_ofParts h]

theorem baseName_ofParts {p : String} (h : AreParts (ps ++ [p])) : baseName (ofParts (ps ++ [p])) = p := by
  simp [baseName, split_ofParts h]

theorem ofParts_append (hp : ps ≠ []) (hq : qs ≠ []) : ofParts (ps ++ qs) = ofParts ps ++ ofParts qs := by
  simp [ofParts, String.intercalate_append_of_ne_nil hp hq, String.append_assoc]

theorem join_ofParts {name : String} (h : AreParts ps) : join (ofParts ps) name = ofParts (ps ++ [name]) := by
  by_cases hps : ps = []
  · subst hps
    simp [join, ofParts]
  · have hRoot : ofParts ps ≠ "/" := fun heq => hps ((ofParts_eq_root h).mp heq)
    rw [join, if_neg (by simpa using hRoot), ofParts_append hps (List.cons_ne_nil _ _)]
    simp [ofParts, String.append_assoc]

/-- The rest of a path below `qs` can be hung below other parts by cutting its text. -/
theorem ofParts_append_drop {rest : List String} (hp : ps ≠ []) (hq : qs ≠ []) :
    ofParts ps ++ String.ofList ((ofParts (qs ++ rest)).toList.drop (ofParts qs).length) =
      ofParts (ps ++ rest) := by
  by_cases hr : rest = []
  · subst hr
    simp [← String.length_toList]
  · rw [ofParts_append hq hr, ofParts_append hp hr, String.toList_append, ← String.length_toList,
      List.drop_left, String.ofList_toList]

theorem prefix_of_isPrefixOf {path : String} (hq : AreParts qs) (h : (ofParts qs).toList ++ ['/'] <+: path.toList) :
    qs <+: split path := by
  obtain ⟨cs, hcs⟩ := h
  have hPieces : pieces path = pieces (ofParts qs) ++ (cs.splitOn '/').map String.ofList := by
    rw [pieces, pieces, ← hcs, List.append_assoc, List.singleton_append,
      List.splitOn_append_cons_self, List.map_append]
  have hSplit : split path = split (ofParts qs) ++ ((cs.splitOn '/').map String.ofList).filter (· != "") := by
    rw [split, hPieces, List.filter_append, split]
  rw [split_ofParts hq] at hSplit
  exact ⟨_, hSplit.symm⟩

/-- The parts of a path that lies within another one begin with the parts of that one, however it is written. -/
theorem prefix_of_isWithin {path : String} (hq : AreParts qs) (h : isWithin path (ofParts qs) = true) :
    qs <+: split path := by
  simp only [isWithin, Bool.or_eq_true, beq_iff_eq, ofParts_eq_root hq, List.isPrefixOf_iff_prefix] at h
  rcases h with (rfl | rfl) | h
  · exact List.nil_prefix
  · exact (split_ofParts hq).symm ▸ List.prefix_rfl
  · exact prefix_of_isPrefixOf hq h

/-- A path lies within another one exactly if its parts begin with the parts of that one. -/
theorem isWithin_iff (hp : AreParts ps) (hq : AreParts qs) :
    isWithin (ofParts ps) (ofParts qs) = true ↔ qs <+: ps := by
  constructor
  · intro h
    rw [← split_ofParts hp]
    exact prefix_of_isWithin hq h
  · simp only [isWithin, Bool.or_eq_true, beq_iff_eq, ofParts_eq_root hq, ofParts_inj hp hq,
      List.isPrefixOf_iff_prefix]
    rintro ⟨rest, rfl⟩
    by_cases hq0 : qs = []
    · exact .inl (.inl hq0)
    · by_cases hr : rest = []
      · exact .inl (.inr (by simp [hr]))
      · refine .inr ⟨['/'].intercalate (rest.map String.toList), ?_⟩
        rw [ofParts_append hq0 hr, String.toList_append, toList_ofParts rest, List.append_assoc]
        rfl

end

theorem isWithin_iff_split {path ancestor : String} (hPath : isCanonical path = true)
    (hAncestor : isCanonical ancestor = true) : isWithin path ancestor = true ↔ split ancestor <+: split path := by
  obtain ⟨ps, hps, rfl⟩ := isCanonical_iff.mp hPath
  obtain ⟨qs, hqs, rfl⟩ := isCanonical_iff.mp hAncestor
  rw [split_ofParts hps, split_ofParts hqs]
  exact isWithin_iff hps hqs

/-- A path made of parts has no characters but theirs and slashes. -/
theorem mem_toList_ofParts {parts : List String} {c : Char} (h : c ∈ (ofParts parts).toList) :
    c = '/' ∨ ∃ p ∈ parts, c ∈ p.toList := by
  rw [toList_ofParts] at h
  rcases List.mem_cons.mp h with rfl | h
  · exact .inl rfl
  · induction parts with
    | nil => cases h
    | cons p ps ih =>
      cases ps with
      | nil => exact .inr ⟨p, List.mem_cons_self, by simpa using h⟩
      | cons q qs =>
        have hText : c ∈ p.toList ++ ('/' :: ['/'].intercalate ((q :: qs).map String.toList)) := by
          simpa [List.intercalate] using h
        rcases List.mem_append.mp hText with hHead | hRest
        · exact .inr ⟨p, List.mem_cons_self, hHead⟩
        · rcases List.mem_cons.mp hRest with rfl | hRest
          · exact .inl rfl
          · refine (ih (List.mem_cons_of_mem '/' hRest) hRest).imp_right ?_
            rintro ⟨r, hr, hc⟩
            exact ⟨r, List.mem_cons_of_mem p hr, hc⟩

theorem areParts_follow {place : List String} {piece : String} (h : AreParts place)
    (hSlash : '/' ∉ piece.toList) : AreParts (follow place piece) := by
  simp only [follow]
  split
  · exact h
  · rename_i hStay
    split
    · exact fun p hp => h p (List.mem_of_mem_tail hp)
    · rename_i hUp
      simp only [Bool.or_eq_true, beq_iff_eq, not_or] at hStay hUp
      exact h.cons (isPart_iff.mpr ⟨hStay.1, hStay.2, hUp, hSlash⟩)

theorem areParts_foldl_follow {place pieces : List String} (h : AreParts place)
    (hSlash : ∀ p ∈ pieces, '/' ∉ p.toList) : AreParts (pieces.foldl follow place) := by
  induction pieces generalizing place with
  | nil => exact h
  | cons p ps ih =>
    exact ih (areParts_follow h (hSlash p List.mem_cons_self))
      fun q hq => hSlash q (List.mem_cons_of_mem _ hq)

theorem mem_foldl_follow {place pieces : List String} {p : String} (h : p ∈ pieces.foldl follow place) :
    p ∈ place ∨ p ∈ pieces ∧ p ≠ "" := by
  induction pieces generalizing place with
  | nil => exact .inl h
  | cons q qs ih =>
    rcases ih h with hPlace | ⟨hMem, hne⟩
    · simp only [follow, Bool.or_eq_true, beq_iff_eq] at hPlace
      split at hPlace
      · exact .inl hPlace
      · rename_i hStay
        split at hPlace
        · exact .inl (List.mem_of_mem_tail hPlace)
        · rcases List.mem_cons.mp hPlace with rfl | hPlace
          · exact .inr ⟨List.mem_cons_self, fun hq => hStay (.inl hq)⟩
          · exact .inl hPlace
    · exact .inr ⟨List.mem_cons_of_mem _ hMem, hne⟩

theorem ne_and_not_slash_of_mem_split {path p : String} (h : p ∈ split path) : p ≠ "" ∧ '/' ∉ p.toList := by
  obtain ⟨hPiece, hne⟩ := List.mem_filter.mp h
  have hne : p ≠ "" := by simpa using hne
  exact ⟨hne, not_slash_of_mem_pieces hPiece⟩

/-- The parts of a path have no characters but those of the path. -/
theorem mem_of_mem_split {path part : String} (h : part ∈ split path) : ∀ c ∈ part.toList, c ∈ path.toList := by
  obtain ⟨cs, hcs, rfl⟩ := List.mem_map.mp (List.mem_filter.mp h).1
  rw [String.toList_ofList]
  exact fun c hc => (of_mem_splitOn hcs hc).1

theorem pieces_append_slash (parent : String) (cs : List Char) :
    pieces (parent ++ String.ofList ('/' :: cs)) = pieces parent ++ pieces (String.ofList cs) := by
  rw [pieces, pieces, pieces, String.toList_append, String.toList_ofList, String.toList_ofList,
    List.splitOn_append_cons_self, List.map_append]

theorem split_append_slash (parent : String) (cs : List Char) :
    split (parent ++ String.ofList ('/' :: cs)) = split parent ++ split (String.ofList cs) := by
  rw [split, pieces_append_slash, List.filter_append, split, split]

/-- A name without slashes is the last part of the path that it is joined to. -/
theorem split_join {directory name : String} (hne : name ≠ "") (hSlash : '/' ∉ name.toList) :
    split (join directory name) = split directory ++ [name] := by
  have hBelow : ∀ parent, split (parent ++ "/" ++ name) = split parent ++ split name := by
    intro parent
    have hText : parent ++ "/" ++ name = parent ++ String.ofList ('/' :: name.toList) := by
      apply String.toList_inj.mp
      simp
    rw [hText, split_append_slash, String.ofList_toList]
  have hRooted : split ("/" ++ name) = [name] := by
    have hPart : ∀ p ∈ [name], p ≠ "" ∧ '/' ∉ p.toList := by simpa using ⟨hne, hSlash⟩
    have hSplit := split_ofParts_of_ne hPart
    rwa [ofParts, String.intercalate_singleton] at hSplit
  have hName : split name = [name] := by
    have hJoined := hBelow ""
    rwa [String.empty_append, hRooted, split_empty, List.nil_append, eq_comm] at hJoined
  rw [join]
  split
  · rename_i hTop
    rw [beq_iff_eq.mp hTop, hRooted, split_root, List.nil_append]
  · rw [hBelow directory, hName]

/-- A part of a path comes from the home directory, where a tilde stands for it, or from the text. -/
theorem mem_split_expandHome {home text p : String} (h : p ∈ split (expandHome home text)) :
    p ∈ split home ∨ ∀ c ∈ p.toList, c ∈ text.toList := by
  unfold expandHome at h
  split at h
  · exact .inl h
  · rename_i cs hText
    rw [split_append_slash] at h
    rcases List.mem_append.mp h with hHome | hRest
    · exact .inl hHome
    · refine .inr fun c hc => ?_
      have hChar := mem_of_mem_split hRest c hc
      rw [String.toList_ofList] at hChar
      rw [hText]
      exact List.mem_cons_of_mem _ (List.mem_cons_of_mem _ hChar)
  · exact .inr (mem_of_mem_split h)

def placeOf (home cwd text : String) : List String :=
  ((pieces (expandHome home text)).foldl follow
    (if (expandHome home text).toList.head? == some '/' then [] else (split cwd).reverse)).reverse

theorem resolve_eq_placeOf (home cwd : String) {text : String} (h : text ≠ "") :
    resolve home cwd (some text) = ofParts (placeOf home cwd text) := by
  simp only [resolve, beq_iff_eq, h, if_false, placeOf]

theorem mem_split_of_mem_placeOf {home cwd text p : String} (h : p ∈ placeOf home cwd text) :
    p ∈ split cwd ∨ p ∈ split (expandHome home text) := by
  rcases mem_foldl_follow (List.mem_reverse.mp h) with hPlace | ⟨hPiece, hne⟩
  · split at hPlace
    · cases hPlace
    · exact .inl (List.mem_reverse.mp hPlace)
  · exact .inr (List.mem_filter.mpr ⟨hPiece, by simpa using hne⟩)

theorem split_resolve_some (home cwd : String) {text : String} (h : text ≠ "") :
    split (resolve home cwd (some text)) = placeOf home cwd text := by
  rw [resolve_eq_placeOf home cwd h, split_ofParts_of_ne]
  intro p hp
  rcases mem_split_of_mem_placeOf hp with hCwd | hPath
  · exact ne_and_not_slash_of_mem_split hCwd
  · exact ne_and_not_slash_of_mem_split hPath

/-- A path that was typed is written back from its parts, wherever it was typed. -/
theorem ofParts_split_resolve (home cwd : String) {text : String} (h : text ≠ "") :
    ofParts (split (resolve home cwd (some text))) = resolve home cwd (some text) := by
  rw [split_resolve_some home cwd h, resolve_eq_placeOf home cwd h]

/-- The parts of a path above its last one are those of the directory that it stands in. -/
theorem split_parentOf (path : String) : split (parentOf path) = (split path).dropLast :=
  split_ofParts_of_ne fun _ hp => ne_and_not_slash_of_mem_split (List.dropLast_subset _ hp)

theorem split_eq_concat {path : String} (h : split path ≠ []) :
    split path = split (parentOf path) ++ [baseName path] := by
  rw [split_parentOf, baseName, List.getLast?_eq_some_getLast h, Option.getD_some]
  exact (List.dropLast_concat_getLast h).symm

theorem areParts_split {path : String} (h : isCanonical path = true) : AreParts (split path) := by
  obtain ⟨ps, hps, rfl⟩ := isCanonical_iff.mp h
  rwa [split_ofParts hps]

theorem AreParts.reverse {ps : List String} (h : AreParts ps) : AreParts ps.reverse :=
  fun p hp => h p (List.mem_reverse.mp hp)

theorem isCanonical_resolve (home : String) {cwd : String} (raw : Option String)
    (hCwd : isCanonical cwd = true) : isCanonical (resolve home cwd raw) = true := by
  unfold resolve
  split
  · exact hCwd
  · split
    · exact hCwd
    · apply isCanonical_ofParts
      apply AreParts.reverse
      apply areParts_foldl_follow
      · split
        · exact .nil
        · exact (areParts_split hCwd).reverse
      · exact fun p hp => not_slash_of_mem_pieces hp

theorem foldl_follow_parts {place ps : List String} (h : AreParts ps) : ps.foldl follow place = ps.reverse ++ place := by
  induction ps generalizing place with
  | nil => rfl
  | cons p ps ih =>
    obtain ⟨hne, hDot, hUp, -⟩ := isPart_iff.mp (h p List.mem_cons_self)
    have hps : AreParts ps := fun q hq => h q (List.mem_cons_of_mem p hq)
    rw [List.foldl_cons, ih hps, List.reverse_cons, List.append_assoc]
    simp [follow, hne, hDot, hUp]

/-- A canonical path means itself, wherever it is typed. -/
theorem resolve_of_isCanonical (home cwd : String) {path : String} (h : isCanonical path = true) :
    resolve home cwd (some path) = path := by
  obtain ⟨ps, hps, rfl⟩ := isCanonical_iff.mp h
  have hText := toList_ofParts ps
  have hHome : expandHome home (ofParts ps) = ofParts ps := by
    rw [expandHome, hText]
    cases ['/'].intercalate (ps.map String.toList) <;> simp
  have hPieces : (pieces (ofParts ps)).foldl follow [] = ps.reverse := by
    by_cases hNil : ps = []
    · subst hNil
      decide
    · rw [pieces_ofParts hNil fun p hp => (hps.ne_and_not_slash p hp).2, List.foldl_cons]
      exact (foldl_follow_parts hps).trans (List.append_nil _)
  have hne : ofParts ps ≠ "" := ne_empty_of_isCanonical h
  simp only [resolve, beq_iff_eq, hne, if_false, hHome, hText, List.head?_cons, if_true, hPieces,
    List.reverse_reverse]

/-- What a path to write at has to be like. -/
theorem forWriting_eq_some {home cwd path : String} {raw : Option String} :
    forWriting home cwd raw = some path ↔ ∃ text, raw = some text ∧ text ≠ "" ∧ hasUnsafe text = false ∧
      ".." ∉ pieces text ∧ path = resolve home cwd raw ∧ path ≠ "/" := by
  cases raw with
  | none => simp [forWriting]
  | some text =>
    simp only [forWriting, Option.ite_none_left_eq_some, Bool.or_eq_true, beq_iff_eq,
      List.contains_iff_mem, not_or, Bool.not_eq_true, Option.some.injEq]
    constructor
    · rintro ⟨⟨⟨hne, hUnsafe⟩, hUp⟩, hRoot, rfl⟩
      exact ⟨text, rfl, hne, hUnsafe, hUp, rfl, hRoot⟩
    · rintro ⟨_, rfl, hne, hUnsafe, hUp, rfl, hRoot⟩
      exact ⟨⟨⟨hne, hUnsafe⟩, hUp⟩, hRoot, rfl⟩

/-- A canonical path other than the root has a last part. -/
theorem exists_concat_of_ne_root {path : String} (h : isCanonical path = true) (hRoot : path ≠ "/") :
    ∃ ps name, AreParts (ps ++ [name]) ∧ path = ofParts (ps ++ [name]) := by
  obtain ⟨ps, hps, rfl⟩ := isCanonical_iff.mp h
  have hne : ps ≠ [] := fun heq => hRoot (by rw [heq, ofParts_nil])
  rw [← List.dropLast_concat_getLast hne] at hps ⊢
  exact ⟨_, _, hps, rfl⟩

end VirtualShell.Path
