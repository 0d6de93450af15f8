import VirtualShell.Proofs.Shell.Keeping

/-!
# Where command lines lead to

A session that runs command lines is at a node of the tree at any time. Only a login leads to a file,
which it does when a file stands where the home directory of the user should be; all other lines keep a
session in a directory.
-/
namespace VirtualShell
set_option autoImplicit false

open Session

namespace Session

variable {s t : Session}

theorem Grounded.home_canonical (h : s.Grounded) : Path.isCanonical s.home = true := by
  obtain ⟨a, ha⟩ := Option.isSome_iff_exists.mp h.accounts.user
  rw [home, account?, ha]
  exact (h.accounts.valid_of_find? ha).1.home

theorem Grounded.resolve_home (h : s.Grounded) : s.resolve (some s.home) = s.home :=
  Path.resolve_of_isCanonical s.home s.cwd h.home_canonical

theorem Grounded.enter {cwd : String} (h : s.Grounded) (hCanonical : Path.isCanonical cwd = true)
    (hPresent : s.root.kindAt (Path.split cwd) ≠ none) : Grounded { s with cwd := cwd } :=
  ⟨⟨h.placed.wellFormed, h.placed.name, h.placed.isDir, hCanonical, hPresent⟩,
    h.accounts.of_same ⟨rfl, rfl, rfl, rfl⟩⟩

theorem Grounded.goHome_eq (h : s.Grounded) :
    s.goHome = { s with cwd := if (s.lookup s.home).isSome then s.home else "/" } := by
  unfold Session.goHome
  rw [h.resolve_home]

theorem Grounded.goHome (h : s.Grounded) : s.goHome.Grounded := by
  rw [h.goHome_eq]
  by_cases hHome : (s.lookup s.home).isSome
  · rw [if_pos hHome]
    obtain ⟨n, hn⟩ := Option.isSome_iff_exists.mp hHome
    have hn : s.root.get? (Path.split s.home) = some n := hn
    refine h.enter h.home_canonical ?_
    rw [Node.kindAt, hn]
    exact Option.some_ne_none _
  · rw [if_neg hHome]
    refine h.enter (by decide) ?_
    rw [Path.split_root]
    exact Option.some_ne_none _

theorem elevations_goHome (s : Session) : s.goHome.elevations = s.elevations := by
  unfold Session.goHome
  rfl

theorem switches_goHome (s : Session) : s.goHome.switches = s.switches := by
  unfold Session.goHome
  rfl

/-- A grounded session that was switched at least `k` times. As long as it was not switched any further
it is in a directory. -/
structure Housed (k : Nat) (marks : List Mark) (s : Session) : Prop where
  grounded : s.Grounded
  elevations : s.elevations = marks.map Mark.username
  switches : k ≤ s.switches
  directory : s.switches = k → s.placeKind = some .dir

variable {k : Nat} {marks : List Mark}

theorem Housed.changed (h : Housed k marks s) (hChanged : Changed s t) : Housed k marks t := by
  obtain ⟨hPlaced, hKind⟩ := hChanged.edits.stays h.grounded.placed
  have hMore := hChanged.edits.switches_le
  refine ⟨hChanged.grounded h.grounded, hChanged.elevations.trans h.elevations, Nat.le_trans h.switches hMore, ?_⟩
  intro hSame
  have hOld : s.switches = k := Nat.le_antisymm (hSame ▸ hMore) h.switches
  rw [h.directory hOld, or_self] at hKind
  exact hKind

theorem invariant_housed (k : Nat) : Invariant (Housed k) where
  operate o h := (steps_changed o h.grounded).keeps (fun _ _ => h.changed) h
  login {marks s t username name} h hRun := by
    obtain ⟨-, -, hSwitched⟩ := (switchUser_ends s username).answer _ _ hRun
    have hChanged := (switchUser_changed username h.grounded).answer _ _ hRun
    have hMore : s.switches < t.switches := by
      rw [hSwitched]
      exact Nat.lt_succ_self _
    have hElevations := hChanged.elevations.trans h.elevations
    rw [← elevations_goHome] at hElevations
    refine ⟨(hChanged.grounded h.grounded).goHome, hElevations, ?_, ?_⟩
    · rw [switches_goHome]
      exact Nat.le_trans h.switches (Nat.le_of_lt hMore)
    · intro hSame
      rw [switches_goHome] at hSame
      exact absurd h.switches (Nat.not_le.mpr (hSame ▸ hMore))
  enter {marks s} h := by
    have hStays : Stays s s.enterElevation.2 := h.grounded.placed.of_tree_eq rfl rfl
    exact ⟨⟨hStays.placed, h.grounded.accounts.enter⟩, elevations_enter h.elevations, h.switches, h.directory⟩
  leave {mark marks s} h := by
    have hSwitches : (leaveElevation mark s).2.switches = s.switches := by
      unfold leaveElevation
      split
      · rfl
      · rfl
    have hStays := h.grounded.placed.of_tree_eq (root_leave mark s) (cwd_leave mark s)
    refine ⟨⟨hStays.placed, h.grounded.accounts.leave h.elevations⟩, elevations_leave h.elevations, ?_, ?_⟩
    · rw [hSwitches]
      exact h.switches
    · intro hSame
      rw [placeKind, root_leave, cwd_leave]
      exact h.directory (hSwitches ▸ hSame)

end Session

namespace Shell

variable {sh : Shell}

/-- A shell that command lines lead to, from the start of a session on. -/
inductive Reached : Shell → Prop where
  | start {username : String} {now : Float} {s : Session} (tally : Tally) :
      Session.fresh? username now = some s → Reached ⟨s, tally⟩
  | wait {sh : Shell} (now : Float) : Reached sh → Reached { sh with session := { sh.session with now := now } }
  | line {sh : Shell} (o : ShellOptions) (markup : Bool) (line : String) : Reached sh →
      Reached (sh.run o markup line).2

theorem Reached.housed (h : Reached sh) : Housed 0 [] sh.session := by
  induction h with
  | start tally hFresh =>
    have hInv := (Session.Reached.start hFresh).inv
    exact ⟨hInv.sound.grounded, hInv.elevations, Nat.zero_le _, fun _ => hInv.sound.tree.placeKind⟩
  | @wait sh now _ ih =>
    obtain ⟨⟨hPlaced, hAccounts⟩, hElevations, hSwitches, hDirectory⟩ := ih
    have hStays : Stays sh.session { sh.session with now := now } := hPlaced.of_tree_eq rfl rfl
    exact ⟨⟨hStays.placed, hAccounts.of_same ⟨rfl, rfl, rfl, rfl⟩⟩, hElevations, hSwitches, hDirectory⟩
  | line o markup line _ ih => exact run_keeps (invariant_housed 0) line ih

/-- A session that has run lines is at the canonical path of a node. It is in a directory if no user was
switched yet, and it stays in one on every line that switches no user. -/
theorem Reached.stands_at_node (h : Reached sh) :
    Path.isCanonical sh.session.cwd = true ∧ (sh.session.lookup sh.session.cwd).isSome = true ∧
      (sh.session.switches = 0 → sh.session.isDirectory sh.session.cwd = true) ∧
      ∀ o markup line, sh.session.isDirectory sh.session.cwd = true →
        (sh.run o markup line).2.session.switches = sh.session.switches →
          (sh.run o markup line).2.session.isDirectory (sh.run o markup line).2.session.cwd = true := by
  obtain ⟨hGrounded, hElevations, -, hDirectory⟩ := h.housed
  have hPresent := hGrounded.placed.present
  refine ⟨hGrounded.placed.canonical, ?_, ?_, ?_⟩
  · obtain ⟨kind, hKind⟩ := Option.ne_none_iff_exists'.mp hPresent
    obtain ⟨n, hn, -⟩ := Option.map_eq_some_iff.mp hKind
    exact Option.isSome_iff_exists.mpr ⟨n, hn⟩
  · exact fun hNever => (isDirectory_cwd_iff _).mpr (hDirectory hNever)
  · intro o markup line hDir hSame
    have hHoused : Housed sh.session.switches [] sh.session :=
      ⟨hGrounded, hElevations, Nat.le_refl _, fun _ => (isDirectory_cwd_iff _).mp hDir⟩
    have hAfter : Housed sh.session.switches [] (sh.run o markup line).2.session :=
      run_keeps (invariant_housed _) line hHoused
    exact (isDirectory_cwd_iff _).mpr (hAfter.directory hSame)

def runLines (sh : Shell) (lines : List String) : Shell :=
  lines.foldl (fun sh line => (sh.run .default false line).2) sh

theorem Reached.runLines (h : Reached sh) (lines : List String) : Reached (sh.runLines lines) := by
  induction lines generalizing sh with
  | nil => exact h
  | cons line lines ih =>
    rw [Shell.runLines, List.foldl_cons]
    exact ih (h.line .default false line)

/-- The directory of the session is removed by a line of its own. -/
theorem stands_above_removed_directory : ∃ s, Session.fresh? "user" 0.0 = some s ∧
    let sh := Shell.runLines ⟨s, []⟩ ["mkdir -p a/b", "cd a/b", "sudo rm -r ../../a"]
    sh.session.cwd = "/home/user" ∧ Path.isCanonical sh.session.cwd = true ∧
      (sh.session.lookup sh.session.cwd).isSome = true ∧
      (sh.session.switches = 0 → sh.session.isDirectory sh.session.cwd = true) ∧
      ∀ o markup line, sh.session.isDirectory sh.session.cwd = true →
        (sh.run o markup line).2.session.switches = sh.session.switches →
          (sh.run o markup line).2.session.isDirectory (sh.run o markup line).2.session.cwd = true := by
  have hRun : (Session.fresh? "user" 0.0).map (fun s =>
      (Shell.runLines ⟨s, []⟩ ["mkdir -p a/b", "cd a/b", "sudo rm -r ../../a"]).session.cwd) =
      some "/home/user" := by
    decide +kernel
  obtain ⟨s, hFresh, hCwd⟩ := Option.map_eq_some_iff.mp hRun
  exact ⟨s, hFresh, hCwd, ((Reached.start [] hFresh).runLines _).stands_at_node⟩

/-- A login leads to a file that was put in the place of the home directory. -/
theorem not_in_directory_after_login :
    ¬∀ sh : Shell, Reached sh → sh.session.isDirectory sh.session.cwd = true := by
  intro h
  have hRun : (Session.fresh? "user" 0.0).map (fun s =>
      let t := (Shell.runLines ⟨s, []⟩ ["sudo rm -r /home/user", "sudo touch /home/user", "su user"]).session
      t.isDirectory t.cwd) = some false := by
    decide +kernel
  obtain ⟨s, hFresh, hPlace⟩ := Option.map_eq_some_iff.mp hRun
  have hDirectory := h _ ((Reached.start [] hFresh).runLines
    ["sudo rm -r /home/user", "sudo touch /home/user", "su user"])
  rw [hDirectory] at hPlace
  cases hPlace

end Shell

end VirtualShell
