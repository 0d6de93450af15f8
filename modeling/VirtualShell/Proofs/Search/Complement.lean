import VirtualShell.Proofs.Search.Listed
import VirtualShell.Search.Grep

/-!
# Lines that match and lines that do not

Which texts a search goes through, and what it has to complain about, depends neither on the pattern nor on whether
lines are asked for that match it or that do not. Both searches therefore share out the same lines between them.
-/
namespace VirtualShell
set_option autoImplicit false

inductive GrepTarget where
  | text (shown content : String)
  | problem (complaint : String) (kind : ErrorKind)

def numberedLines (shown text : String) : List LineMatch :=
  ((linesOf text).zipIdx 1).map fun x => ⟨shown, x.2, x.1⟩

namespace GrepTarget

def lines : GrepTarget → List LineMatch
  | text shown content => numberedLines shown content
  | problem .. => []

def problem? : GrepTarget → Option Problem
  | text .. => none
  | problem complaint kind => some ⟨"grep: " ++ complaint, kind⟩

def denied (shown : String) : GrepTarget := problem (shown ++ ": " ++ Obstacle.denied.text) .permissionDenied

end GrepTarget

def Subject.target (u : Subject) (shown : String) (n : Node) : GrepTarget :=
  if u.Has .read n then .text shown n.content else .denied shown

def Session.targets (s : Session) (recursive : Bool) (path : String) : List GrepTarget :=
  match s.stat (some path) with
  | .error (.refused refusal) => [.problem refusal.message refusal.kind]
  | .error (.crashed _) => []
  | .ok n =>
    if !n.isDir then [s.subject.target path n]
    else if !recursive then [.problem (path ++ ": " ++ Obstacle.isADirectory.text) .isADirectory]
    else ((s.walk (some path)).nodes.filter fun x => !x.2.isDir).map fun x => s.subject.target x.1 x.2

/-- The reports share out the lines of the targets, and have the same to complain about. -/
structure Complements (p : Pattern) (targets : List GrepTarget) (plain inverted : GrepReport) : Prop where
  matching : plain.found = (targets.flatMap GrepTarget.lines).filter fun m => p.occursIn m.line
  others : inverted.found = (targets.flatMap GrepTarget.lines).filter fun m => !p.occursIn m.line
  disjoint : plain.found.Disjoint inverted.found
  together : (plain.found ++ inverted.found).Perm (targets.flatMap GrepTarget.lines)
  problems : plain.problems = targets.filterMap GrepTarget.problem?
  same : inverted.problems = plain.problems
  kind : inverted.kind = plain.kind

variable {s : Session} {u : Subject} {p : Pattern} {invert recursive : Bool} {n : Node}

theorem matchLinesFrom_eq (p : Pattern) (invert : Bool) (shown : String) (number : Nat) (ls : List String) :
    matchLinesFrom p invert shown number ls =
      ((ls.zipIdx number).map fun x => (⟨shown, x.2, x.1⟩ : LineMatch)).filter fun m =>
        p.occursIn m.line != invert := by
  induction ls generalizing number with
  | nil => rfl
  | cons l ls ih =>
    rw [matchLinesFrom, List.zipIdx_cons, List.map_cons, List.filter_cons, ih]

theorem matchLines_eq (p : Pattern) (invert : Bool) (shown text : String) :
    matchLines p invert shown text = (numberedLines shown text).filter fun m => p.occursIn m.line != invert :=
  matchLinesFrom_eq p invert shown 1 (linesOf text)

namespace GrepReport

def add (p : Pattern) (invert : Bool) (r : GrepReport) : GrepTarget → GrepReport
  | .text shown content => r.addLines (matchLines p invert shown content)
  | .problem text kind => r.addProblem text kind

theorem foldl_add (p : Pattern) (invert : Bool) (r : GrepReport) (targets : List GrepTarget) :
    targets.foldl (add p invert) r =
      { r with
        found := r.found ++ (targets.flatMap GrepTarget.lines).filter fun m => p.occursIn m.line != invert
        problems := r.problems ++ targets.filterMap GrepTarget.problem? } := by
  induction targets generalizing r with
  | nil => simp
  | cons target targets ih =>
    rw [List.foldl_cons, ih]
    cases target with
    | text shown content =>
      have hNone : (GrepTarget.text shown content).problem? = none := rfl
      simp [add, addLines, GrepTarget.lines, hNone, matchLines_eq]
    | problem complaint kind => simp [add, addProblem, GrepTarget.lines, GrepTarget.problem?]

end GrepReport

def Subject.inspectFile (u : Subject) (shown : String) (n : Node) : Except Fault (List GrepTarget) := do
  if ← u.may .read n then return [.text shown n.content] else return [.denied shown]

def Subject.inspectTrail (u : Subject) (trail : Trail) : Except Fault (List GrepTarget) := do
  let targets ← (trail.nodes.filter fun x => !x.2.isDir).mapM fun x => u.inspectFile x.1 x.2
  match trail.fault with
  | some fault => .error fault
  | none => return targets.flatten

def Session.inspectOperand (s : Session) (recursive : Bool) (path : String) : Except Fault (List GrepTarget) :=
  match s.stat (some path) with
  | .error (.refused refusal) => .ok [.problem refusal.message refusal.kind]
  | .error (.crashed c) => crash c
  | .ok n =>
    if !n.isDir then s.subject.inspectFile path n
    else if !recursive then .ok [.problem (path ++ ": " ++ Obstacle.isADirectory.text) .isADirectory]
    else s.subject.inspectTrail (s.walk (some path))

namespace GrepReport

theorem addFile_eq (r : GrepReport) (shown : String) (n : Node) : r.addFile u p invert shown n =
    (fun targets => targets.foldl (add p invert) r) <$> u.inspectFile shown n := by
  rw [addFile, Subject.inspectFile]
  cases u.may .read n with
  | error fault => rfl
  | ok may => cases may <;> rfl

theorem addTrail_eq (r : GrepReport) (trail : Trail) : r.addTrail u p invert trail =
    (fun targets => targets.foldl (add p invert) r) <$> u.inspectTrail trail := by
  rw [addTrail, Subject.inspectTrail]
  simp only [addFile_eq]
  rw [Result.foldlM_map_foldl]
  cases (trail.nodes.filter fun x => !x.2.isDir).mapM fun x => u.inspectFile x.1 x.2 with
  | error fault => rfl
  | ok targets => cases trail.fault <;> rfl

theorem addOperand_eq (o : GrepOptions) (r : GrepReport) (path : String) : r.addOperand s p o path =
    (fun targets => targets.foldl (add p o.invert) r) <$> s.inspectOperand o.recursive path := by
  rw [addOperand, Session.inspectOperand]
  cases s.stat (some path) with
  | error fault => cases fault <;> rfl
  | ok n =>
    dsimp only
    split
    · exact addFile_eq r path n
    · split
      · rfl
      · exact addTrail_eq r _

end GrepReport

namespace Session

section

variable {pattern : String} {ignoreCase : Bool} (hPattern : readPattern pattern ignoreCase = .ok (some p))
  (recursive : Bool) (paths : List String)

include hPattern

/-- A search is first of all an inspection, to which the pattern is nothing. -/
theorem grep_eq (invert : Bool) : s.grep pattern paths ⟨recursive, ignoreCase, invert⟩ =
    (fun targets : List (List GrepTarget) =>
      targets.flatten.foldl (GrepReport.add p invert) ⟨[], [], recursive || paths.length > 1⟩) <$>
      paths.mapM (s.inspectOperand recursive) := by
  rw [grep, hPattern, Result.ok_bind]
  simp only [GrepReport.addOperand_eq]
  exact Result.foldlM_map_foldl (s.inspectOperand recursive) (GrepReport.add p invert) paths _

theorem complements_of_inspected {targets : List (List GrepTarget)}
    (hInspected : paths.mapM (s.inspectOperand recursive) = .ok targets) : ∃ plain inverted,
    s.grep pattern paths ⟨recursive, ignoreCase, false⟩ = .ok plain ∧
      s.grep pattern paths ⟨recursive, ignoreCase, true⟩ = .ok inverted ∧
      Complements p targets.flatten plain inverted := by
  refine ⟨_, _, by rw [grep_eq hPattern, hInspected]; rfl, by rw [grep_eq hPattern, hInspected]; rfl, ?_⟩
  simp only [GrepReport.foldl_add, List.nil_append, Bool.bne_false, Bool.bne_true]
  refine ⟨rfl, rfl, ?_, List.filter_append_perm _ _, rfl, rfl, rfl⟩
  intro m hm hm'
  have hMatches := (List.mem_filter.mp hm).2
  have hOther := (List.mem_filter.mp hm').2
  rw [hMatches] at hOther
  cases hOther

end

section

variable (h : s.TreeSound)

include h

theorem TreeSound.wellFormed_of_mem_walk {start : PathArg} {nodes : List (String × Node)} {q : String}
    (hWalk : s.walk start = ⟨nodes, none⟩) (hm : (q, n) ∈ nodes) : n.WellFormed := by
  cases hStat : s.stat start with
  | error fault =>
    cases hWalk.symm.trans (h.walk_of_stat_error hStat)
    cases hm
  | ok m =>
    cases hWalk.symm.trans (h.walk_of_stat_ok hStat)
    exact h.wellFormed_of_stat ((h.lists hStat).stat q n hm)

theorem TreeSound.inspectOperand_eq (recursive : Bool) (path : String) :
    s.inspectOperand recursive path = .ok (s.targets recursive path) := by
  have hFile {shown : String} {n : Node} (hn : n.WellFormed) :
      s.subject.inspectFile shown n = .ok [s.subject.target shown n] := by
    rw [Subject.inspectFile, Subject.may_eq hn.info_valid, Subject.target, Result.ok_bind]
    split <;> simp_all [pure, Except.pure]
  rw [inspectOperand, targets]
  cases hStat : s.stat (some path) with
  | error fault =>
    obtain ⟨refusal, rfl⟩ := h.exists_refusal_of_stat hStat
    rfl
  | ok n =>
    dsimp only
    split
    · exact hFile (h.wellFormed_of_stat hStat)
    · split
      · rfl
      · have hWalk := h.walk_of_stat_ok hStat
        rw [Subject.inspectTrail, hWalk]
        have hFiles : ((s.subject.listing (s.resolve (some path)) n).filter fun x => !x.2.isDir).mapM
            (fun x => s.subject.inspectFile x.1 x.2) =
              .ok (((s.subject.listing (s.resolve (some path)) n).filter fun x => !x.2.isDir).map
                fun x => [s.subject.target x.1 x.2]) :=
          Result.mapM_eq_ok fun x hx => hFile (h.wellFormed_of_mem_walk hWalk (List.mem_filter.mp hx).1)
        rw [hFiles, Result.ok_bind, ← List.flatMap_def, ← List.map_eq_flatMap]
        rfl

end

/-- The lines that match and those that do not are all lines of the files searched, each on one side only. Both
searches complain about the same: once about each operand that leads nowhere or to a directory that is not searched, and
once about each file that may not be read. -/
theorem grep_complement {pattern : String} {ignoreCase : Bool}
    (hPattern : readPattern pattern ignoreCase = .ok (some p)) (s : Session) (recursive : Bool) (paths : List String) :
    Result.Agree (fun plain inverted => ∃ targets, Complements p targets plain inverted)
        (s.grep pattern paths ⟨recursive, ignoreCase, false⟩) (s.grep pattern paths ⟨recursive, ignoreCase, true⟩) ∧
      (s.TreeSound → ∃ plain inverted, s.grep pattern paths ⟨recursive, ignoreCase, false⟩ = .ok plain ∧
        s.grep pattern paths ⟨recursive, ignoreCase, true⟩ = .ok inverted ∧
        Complements p (paths.flatMap (s.targets recursive)) plain inverted) := by
  refine ⟨?_, fun hSound => ?_⟩
  · cases hInspected : paths.mapM (s.inspectOperand recursive) with
    | error fault =>
      rw [grep_eq hPattern, grep_eq hPattern, hInspected]
      exact .error fault
    | ok targets =>
      obtain ⟨plain, inverted, hPlain, hInverted, hBoth⟩ := complements_of_inspected hPattern recursive paths hInspected
      rw [hPlain, hInverted]
      exact .ok ⟨targets.flatten, hBoth⟩
  · have hInspected := Result.mapM_eq_ok fun path (_ : path ∈ paths) => hSound.inspectOperand_eq recursive path
    have hBoth := complements_of_inspected hPattern recursive paths hInspected
    rwa [← List.flatMap_def] at hBoth

/-- The file of users is searched, and there are three complaints about the other operands. -/
theorem users_shared_out : ∃ s p plain inverted, Session.fresh? "user" 0.0 = some s ∧ s.TreeSound ∧
    readPattern "root" false = .ok (some p) ∧
    s.grep "root" ["/etc/passwd", "/etc/shadow", "/etc", "/none"] ⟨false, false, false⟩ = .ok plain ∧
    s.grep "root" ["/etc/passwd", "/etc/shadow", "/etc", "/none"] ⟨false, false, true⟩ = .ok inverted ∧
    Complements p (["/etc/passwd", "/etc/shadow", "/etc", "/none"].flatMap (s.targets false)) plain inverted ∧
    plain.problems.length = 3 := by
  have hRun : (Session.fresh? "user" 0.0).map (fun s => ((["/etc/passwd", "/etc/shadow", "/etc", "/none"].flatMap
      (s.targets false)).filterMap GrepTarget.problem?).length) = some 3 := by
    decide +kernel
  obtain ⟨s, hFresh, hCount⟩ := Option.map_eq_some_iff.mp hRun
  have hSound : s.TreeSound := (Reached.start hFresh).inv.sound.tree
  obtain ⟨p, hPattern⟩ : ∃ p, readPattern "root" false = .ok (some p) := ⟨_, rfl⟩
  obtain ⟨plain, inverted, hPlain, hInverted, hBoth⟩ :=
    (grep_complement hPattern s false ["/etc/passwd", "/etc/shadow", "/etc", "/none"]).2 hSound
  rw [← hBoth.problems] at hCount
  exact ⟨s, p, plain, inverted, hFresh, hSound, hPattern, hPlain, hInverted, hBoth, hCount⟩

end Session

end VirtualShell
