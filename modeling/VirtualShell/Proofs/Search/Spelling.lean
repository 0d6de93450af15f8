import VirtualShell.Proofs.Line.Spelling
import VirtualShell.Proofs.Path.Parts
import VirtualShell.Proofs.Search.Walk
import VirtualShell.Proofs.Session.Reach
import VirtualShell.Proofs.Text.Lines
import VirtualShell.Proofs.Tree.Everywhere
import VirtualShell.Search.Grep

/-!
# What found lines are spelled with

A found line has no newline in it, whatever it was found in. The path that is shown with it was typed, or it
leads from the place that was typed over names in the tree, so that it is spelled with characters that are in
the line that was typed, the names of nodes, or the paths that the session knows.
-/
namespace VirtualShell
set_option autoImplicit false

open Line (Spelled)

variable {p : Char → Prop} (hp : ∀ c, c ≠ '\n' → p c)

include hp

theorem spelled_linesOf (text : String) : ∀ line ∈ linesOf text, Spelled p line.toList := by
  intro line hLine c hc
  obtain ⟨cs, hcs, rfl⟩ := List.mem_map.mp hLine
  rw [String.toList_ofList] at hc
  have hBreak := Text.not_isLineBreak_of_mem_linesFrom (List.forall_mem_nil _) cs hcs c hc
  refine hp c ?_
  rintro rfl
  exact absurd hBreak (by decide)

theorem Path.spelled_ofParts {parts : List String} (h : ∀ q ∈ parts, Spelled p q.toList) :
    Spelled p (ofParts parts).toList := by
  intro c hc
  rcases mem_toList_ofParts hc with rfl | ⟨q, hq, hc⟩
  · exact hp '/' (by decide)
  · exact h q hq c hc

theorem Path.spelled_join {parent name : String} (h : Spelled p parent.toList) (hName : Spelled p name.toList) :
    Spelled p (join parent name).toList := by
  have hSlash : Spelled p "/".toList := List.forall_mem_singleton.mpr (hp '/' (by decide))
  unfold join
  split
  · rw [String.toList_append]
    exact hSlash.append hName
  · rw [String.toList_append, String.toList_append]
    exact (h.append hSlash).append hName

omit hp in
theorem Path.spelled_split {path : String} (h : Spelled p path.toList) : ∀ q ∈ split path, Spelled p q.toList :=
  fun _ hq c hc => h c (mem_of_mem_split hq c hc)

theorem Path.spelled_resolve {home cwd text : String} (hHome : Spelled p home.toList) (hCwd : Spelled p cwd.toList)
    (hText : Spelled p text.toList) : Spelled p (resolve home cwd (some text)).toList := by
  by_cases hEmpty : text = ""
  · subst hEmpty
    exact hCwd
  · rw [resolve_eq_placeOf home cwd hEmpty]
    refine spelled_ofParts hp fun q hq => ?_
    rcases mem_split_of_mem_placeOf hq with hPlace | hPath
    · exact spelled_split hCwd q hPlace
    · rcases mem_split_expandHome hPath with hTilde | hTyped
      · exact spelled_split hHome q hTilde
      · exact fun c hc => hText c (hTyped c hc)

abbrev Trail.Spelled (p : Char → Prop) (t : Trail) : Prop := ∀ entry ∈ t.nodes, Line.Spelled p entry.1.toList

omit hp in
theorem Trail.Spelled.andThen {t next : Trail} (h : t.Spelled p) (hNext : next.Spelled p) :
    (t.andThen next).Spelled p := by
  unfold Trail.andThen
  split
  · exact h
  · exact List.forall_mem_append.mpr ⟨h, hNext⟩

abbrev Node.Spelled (p : Char → Prop) (n : Node) : Prop := n.AllNames fun name => Line.Spelled p name.toList

theorem Subject.spelled_walk (u : Subject) {n : Node} {path : String} (h : n.Spelled p)
    (hPath : Spelled p path.toList) : (u.walk path n).Spelled p := by
  induction n using Node.induct generalizing path with
  | file i c => exact List.forall_mem_singleton.mpr hPath
  | dir i es ih =>
    rw [walk]
    split
    · rename_i hMay
      refine Trail.Spelled.andThen (List.forall_mem_singleton.mpr hPath) ?_
      have hEntries : ∀ e ∈ es, e.Spelled p := fun e he => h.of_mem he
      clear h hMay
      induction es with
      | nil => exact List.forall_mem_nil _
      | cons e es ihList =>
        obtain ⟨he, hes⟩ := List.forall_mem_cons.mp hEntries
        rw [walkList]
        refine (ih e List.mem_cons_self he (Path.spelled_join hp hPath he.here)).andThen ?_
        exact ihList (fun x hx => ih x (List.mem_cons_of_mem e hx)) hes
    · exact List.forall_mem_singleton.mpr hPath
    · exact List.forall_mem_singleton.mpr hPath

/-- The names in the tree and the paths that a session knows are spelled with characters that have `p`. -/
structure Session.Spelled (p : Char → Prop) (s : Session) : Prop where
  names : s.root.Spelled p
  cwd : Line.Spelled p s.cwd.toList
  home : Line.Spelled p s.home.toList

abbrev GrepReport.Spelled (p : Char → Prop) (r : GrepReport) : Prop :=
  ∀ m ∈ r.found, Line.Spelled p m.path.toList ∧ Line.Spelled p m.line.toList

theorem spelled_matchLines (pattern : Pattern) (invert : Bool) {path : String} (hPath : Spelled p path.toList)
    (text : String) : ∀ m ∈ matchLines pattern invert path text, Spelled p m.path.toList ∧ Spelled p m.line.toList := by
  have hLines := spelled_linesOf hp text
  unfold matchLines
  generalize linesOf text = lines at hLines
  generalize 1 = number
  induction lines generalizing number with
  | nil => exact List.forall_mem_nil _
  | cons line lines ih =>
    obtain ⟨hLine, hLines⟩ := List.forall_mem_cons.mp hLines
    rw [matchLinesFrom]
    split
    · exact List.forall_mem_cons.mpr ⟨⟨hPath, hLine⟩, ih hLines _⟩
    · exact ih hLines _

namespace GrepReport

variable {r r' : GrepReport} {u : Subject} {s : Session} {pattern : Pattern} {invert : Bool}

theorem spelled_addFile {shown : String} {n : Node} (hr : r.Spelled p) (hShown : Line.Spelled p shown.toList)
    (h : r.addFile u pattern invert shown n = .ok r') : r'.Spelled p := by
  obtain ⟨may, -, h⟩ := Result.exists_of_bind_ok h
  split at h
  · cases h
    exact List.forall_mem_append.mpr ⟨hr, spelled_matchLines hp pattern invert hShown n.content⟩
  · cases h
    exact hr

theorem spelled_addTrail {trail : Trail} (hr : r.Spelled p) (hTrail : trail.Spelled p)
    (h : r.addTrail u pattern invert trail = .ok r') : r'.Spelled p := by
  obtain ⟨found, hFound, h⟩ := Result.exists_of_bind_ok h
  have hAll : found.Spelled p := by
    refine Result.foldlM_keeps_of_mem (fun entry hEntry b b' hb hStep => ?_) hr hFound
    exact spelled_addFile hp hb (hTrail entry (List.mem_filter.mp hEntry).1) hStep
  split at h
  · cases h
  · cases h
    exact hAll

theorem spelled_addOperand {path : String} {o : GrepOptions} (hs : s.Spelled p) (hr : r.Spelled p)
    (hPath : Line.Spelled p path.toList) (h : r.addOperand s pattern o path = .ok r') : r'.Spelled p := by
  unfold addOperand at h
  split at h
  · cases h
    exact hr
  · cases h
  · rename_i n hStat
    split at h
    · exact spelled_addFile hp hr hPath h
    · split at h
      · cases h
        exact hr
      · have hNode : n.Spelled p := hs.names.get? (Session.lookup_of_reach hStat)
        rw [Session.walk_of_stat hStat] at h
        exact spelled_addTrail hp hr (s.subject.spelled_walk hp hNode (Path.spelled_resolve hp hs.home hs.cwd hPath)) h

end GrepReport

theorem Session.spelled_grep {s : Session} {pattern : String} {paths : List String} {o : GrepOptions} {r : GrepReport}
    (hs : s.Spelled p) (hPaths : ∀ path ∈ paths, Line.Spelled p path.toList) (h : s.grep pattern paths o = .ok r) :
    r.Spelled p := by
  obtain ⟨read, -, h⟩ := Result.exists_of_bind_ok h
  cases read with
  | none =>
    cases h
    exact List.forall_mem_nil _
  | some pattern =>
    refine Result.foldlM_keeps_of_mem (fun path hPath b b' hb hStep => ?_) (List.forall_mem_nil _) h
    exact GrepReport.spelled_addOperand hp hs hb (hPaths path hPath) hStep

theorem spelled_grepText {text pattern : String} {ignoreCase invert : Bool} {r : GrepReport}
    (h : grepText text pattern ignoreCase invert = .ok r) : r.Spelled p := by
  have hInput : Spelled p "(standard input)".toList := by
    have hNone : '\n' ∉ "(standard input)".toList := by decide
    exact fun c hc => hp c fun hNewline => hNone (hNewline ▸ hc)
  obtain ⟨read, -, h⟩ := Result.exists_of_bind_ok h
  cases read with
  | none =>
    cases h
    exact List.forall_mem_nil _
  | some pattern =>
    cases h
    exact spelled_matchLines hp pattern invert hInput text

end VirtualShell
