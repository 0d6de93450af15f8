import VirtualShell.Proofs.Path.Parts
import VirtualShell.Setup

/-!
# Resolved paths

A resolved path has one spelling, and resolving it again changes nothing. What is typed behind a slash is followed
from the place that the text before it means, so that a path can be resolved in two steps: `resolve_behind`.
-/
namespace VirtualShell
set_option autoImplicit false

namespace Path

/-- Begins with a slash, behind which no piece is empty, `.` or `..`. Only the root ends in a slash. -/
structure Tidy (path : String) : Prop where
  rooted : path.toList.head? = some '/'
  parts : path ≠ "/" → ∃ ps, ps ≠ [] ∧ pieces path = "" :: ps ∧ ∀ p ∈ ps, p ≠ "" ∧ p ≠ "." ∧ p ≠ ".."
  ending : path ≠ "/" → path.toList.getLast? ≠ some '/'

variable {home cwd p q path : String}

theorem pieces_of_isCanonical (h : isCanonical path = true) (hRoot : path ≠ "/") :
    ∃ ps, ps ≠ [] ∧ pieces path = "" :: ps ∧ ∀ p ∈ ps, p ≠ "" ∧ p ≠ "." ∧ p ≠ ".." := by
  obtain ⟨ps, hps, rfl⟩ := isCanonical_iff.mp h
  have hne : ps ≠ [] := fun hNil => hRoot ((ofParts_eq_root hps).mpr hNil)
  refine ⟨ps, hne, pieces_ofParts hne fun p hp => (hps.ne_and_not_slash p hp).2, fun p hp => ?_⟩
  obtain ⟨hEmpty, hDot, hUp, -⟩ := isPart_iff.mp (hps p hp)
  exact ⟨hEmpty, hDot, hUp⟩

theorem getLast?_of_isCanonical (h : isCanonical path = true) (hRoot : path ≠ "/") :
    path.toList.getLast? ≠ some '/' := by
  obtain ⟨ps, name, hParts, rfl⟩ := exists_concat_of_ne_root h hRoot
  obtain ⟨hEmpty, -, -, hSlash⟩ := isPart_iff.mp (hParts name (by simp))
  have hLast := List.getLast?_eq_some_getLast (mt String.toList_eq_nil_iff.mp hEmpty)
  rw [← join_ofParts hParts.left, join]
  -- the last character is that of the name, whatever the name is joined to
  split <;>
  · rw [String.toList_append, List.getLast?_append, hLast, Option.some_or, ← hLast]
    exact fun hMem => hSlash (List.mem_of_getLast? hMem)

theorem tidy_of_isCanonical (h : isCanonical path = true) : Tidy path :=
  ⟨absolute_of_isCanonical h, pieces_of_isCanonical h, getLast?_of_isCanonical h⟩

theorem join_parentOf_baseName (h : isCanonical path = true) (hRoot : path ≠ "/") :
    join (parentOf path) (baseName path) = path := by
  obtain ⟨ps, name, hParts, rfl⟩ := exists_concat_of_ne_root h hRoot
  rw [parentOf_ofParts hParts, baseName_ofParts hParts, List.dropLast_concat, join_ofParts hParts.left]

/-- Where a resolved path may be written at, it is where it leads. -/
theorem forWriting_of_isCanonical (home cwd : String) (h : isCanonical path = true) (hRoot : path ≠ "/") :
    forWriting home cwd (some path) = if hasUnsafe path then none else some path := by
  obtain ⟨ps, -, hPieces, hParts⟩ := pieces_of_isCanonical h hRoot
  have hUp : ".." ∉ pieces path := by
    rw [hPieces]
    simpa using fun hMem => (hParts ".." hMem).2.2 rfl
  have hResolve : resolve home cwd (some path) = path := resolve_of_isCanonical home cwd h
  simp [forWriting, ne_empty_of_isCanonical h, hUp, hResolve, hRoot]

theorem append_slash (p q : String) : p ++ "/" ++ q = p ++ String.ofList ('/' :: q.toList) := by
  apply String.toList_inj.mp
  simp

/-- What stands behind a slash has no say in where the text before it begins. -/
theorem expandHome_behind (home : String) (h : p ≠ "") (q : String) :
    expandHome home (p ++ "/" ++ q) = expandHome home p ++ "/" ++ q := by
  obtain ⟨c, cs, hp⟩ := List.exists_cons_of_ne_nil (mt String.toList_eq_nil_iff.mp h)
  have hText : (p ++ "/" ++ q).toList = c :: (cs ++ '/' :: q.toList) := by simp [hp]
  rw [append_slash (expandHome home p), expandHome, expandHome, hText, hp]
  by_cases hTilde : c = '~'
  · subst hTilde
    cases cs with
    | nil => simp
    | cons d ds =>
      by_cases hSlash : d = '/'
      · subst hSlash
        have hRest : String.ofList (ds ++ '/' :: q.toList) = String.ofList ds ++ String.ofList ('/' :: q.toList) :=
          String.ofList_append
        simp [hRest, String.append_assoc]
      · simp [hSlash, append_slash]
  · simp [hTilde, append_slash]

theorem expandHome_of_ne (home : String) (h : p ≠ "~") (hBelow : ¬"~/".toList <+: p.toList) :
    expandHome home p = p := by
  unfold expandHome
  split
  · rename_i hText
    exact absurd (String.toList_inj.mp hText) h
  · rename_i cs hText
    exact absurd ⟨cs, hText.symm⟩ hBelow
  · rfl

theorem expandHome_ne_empty (hHome : home ≠ "") (h : p ≠ "") : expandHome home p ≠ "" := by
  unfold expandHome
  split
  · exact hHome
  · simp
  · exact h

theorem placeOf_of_relative (hSlash : q.toList.head? ≠ some '/') (hTilde : q ≠ "~")
    (hBelow : ¬"~/".toList <+: q.toList) :
    placeOf home cwd q = ((pieces q).foldl follow (split cwd).reverse).reverse := by
  have hStart : (q.toList.head? == some '/') = false := by simpa using hSlash
  rw [placeOf, expandHome_of_ne home hTilde hBelow, hStart]
  rfl

/-- The pieces behind a slash are followed from the place before it. -/
theorem placeOf_behind (hHome : home ≠ "") (h : p ≠ "") (q : String) : placeOf home cwd (p ++ "/" ++ q) =
    ((pieces q).foldl follow (placeOf home cwd p).reverse).reverse := by
  have hStart : (expandHome home p ++ "/" ++ q).toList.head? = (expandHome home p).toList.head? := by
    obtain ⟨c, cs, hText⟩ := List.exists_cons_of_ne_nil (mt String.toList_eq_nil_iff.mp (expandHome_ne_empty hHome h))
    simp [hText]
  have hPieces : pieces (expandHome home p ++ "/" ++ q) = pieces (expandHome home p) ++ pieces q := by
    rw [append_slash, pieces_append_slash, String.ofList_toList]
  rw [placeOf, expandHome_behind home h, hStart, hPieces, List.foldl_append, placeOf, List.reverse_reverse]

/-- What is typed behind a slash is resolved from where the text before it leads. -/
theorem resolve_behind (hHome : home ≠ "") (hp : p ≠ "") (hSlash : q.toList.head? ≠ some '/') (hTilde : q ≠ "~")
    (hBelow : ¬"~/".toList <+: q.toList) :
    resolve home cwd (some (p ++ "/" ++ q)) = resolve home (resolve home cwd (some p)) (some q) := by
  have hWhole : p ++ "/" ++ q ≠ "" := by simp
  rw [resolve_eq_placeOf home cwd hWhole, placeOf_behind hHome hp]
  by_cases hq : q = ""
  · subst hq
    have hHere : (pieces "").foldl follow (placeOf home cwd p).reverse = (placeOf home cwd p).reverse := rfl
    rw [hHere, List.reverse_reverse, ← resolve_eq_placeOf home cwd hp]
    rfl
  · rw [resolve_eq_placeOf home (resolve home cwd (some p)) hq, placeOf_of_relative hSlash hTilde hBelow,
      split_resolve_some home cwd hp]

end Path

namespace Session

/-- A resolved path is tidy, means itself, and is its last part in the directory above. What is typed behind a slash
is resolved from where the text before it leads. -/
theorem resolve_exact {s : Session} (hCwd : Path.isCanonical s.cwd = true) (hHome : s.home.toList.head? = some '/') :
    (∀ path, Path.Tidy (s.resolve path) ∧ s.resolve (some (s.resolve path)) = s.resolve path ∧
      (s.resolve path ≠ "/" →
        Path.join (Path.parentOf (s.resolve path)) (Path.baseName (s.resolve path)) = s.resolve path)) ∧
    ∀ p q : String, p ≠ "" → q.toList.head? ≠ some '/' → q ≠ "~" → ¬"~/".toList <+: q.toList →
      s.resolve (some (p ++ "/" ++ q)) = Path.resolve s.home (s.resolve (some p)) (some q) := by
  constructor
  · intro path
    have hFull : Path.isCanonical (s.resolve path) = true := Path.isCanonical_resolve s.home path hCwd
    exact ⟨Path.tidy_of_isCanonical hFull, Path.resolve_of_isCanonical s.home s.cwd hFull,
      Path.join_parentOf_baseName hFull⟩
  · intro p q hp hSlash hTilde hBelow
    have hSome : s.home ≠ "" := fun hEmpty => by simp [hEmpty] at hHome
    exact Path.resolve_behind hSome hp hSlash hTilde hBelow

/-- The way out of a directory in the home of the user, in one step and in two. -/
theorem resolve_beside_projects : ∃ s, Session.fresh? "user" 0.0 = some s ∧ Path.isCanonical s.cwd = true ∧
    s.home.toList.head? = some '/' ∧ s.resolve (some "~/projets//./../documents/") = "/home/user/documents" ∧
    s.resolve (some (s.resolve (some "~/projets//./../documents/"))) = s.resolve (some "~/projets//./../documents/") ∧
    s.resolve (some ("~/projets/" ++ "/" ++ "./../documents/")) =
      Path.resolve s.home (s.resolve (some "~/projets/")) (some "./../documents/") := by
  have hFacts : (Session.fresh? "user" 0.0).map (fun s => (Path.isCanonical s.cwd, s.home.toList.head?,
      s.resolve (some "~/projets//./../documents/"))) = some (true, some '/', "/home/user/documents") := by
    decide +kernel
  obtain ⟨s, hFresh, hFacts⟩ := Option.map_eq_some_iff.mp hFacts
  simp only [Prod.mk.injEq] at hFacts
  obtain ⟨hCwd, hHome, hPath⟩ := hFacts
  obtain ⟨hOne, hTwo⟩ := resolve_exact hCwd hHome
  refine ⟨s, hFresh, hCwd, hHome, hPath, (hOne (some "~/projets//./../documents/")).2.1, ?_⟩
  exact hTwo "~/projets/" "./../documents/" (by decide) (by decide) (by decide) (by decide)

end Session

end VirtualShell
