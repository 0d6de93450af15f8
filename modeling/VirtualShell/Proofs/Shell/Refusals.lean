import VirtualShell.Proofs.Shell.Single

/-!
# How often a refusal is counted

A command that is refused is counted by its own stage, and an elevating stage passes the reply of the one that it
elevated on and counts it again. So a refusal is counted once for each stage that it has come through: once where
nothing was elevated, and once more for each elevation that was allowed (`run_counts`).
-/
namespace VirtualShell
set_option autoImplicit false

namespace Tally

def refusals (t : Tally) : List ErrorKind :=
  t.filterMap fun e =>
    match e with
    | .denial kind => some kind
    | _ => none

variable (t : Tally)

theorem length_refusals : t.refusals.length = t.denials := by
  induction t with
  | nil => rfl
  | cons e t ih =>
    unfold refusals denials at ih ⊢
    cases e <;> simp [ih]

theorem count_refusals (kind : ErrorKind) : t.refusals.count kind = t.count (.denial kind) := by
  induction t with
  | nil => rfl
  | cons e t ih =>
    unfold refusals count at ih ⊢
    cases e with
    | denial other => simp [List.count_cons, List.countP_cons, ih]
    | command | badLine | elevation | restore => simpa [List.countP_cons] using ih

end Tally

def Reply.refusals (r : Reply) (times : Nat) : List ErrorKind :=
  match r.kind with
  | some kind => if kind.isDenial then List.replicate times kind else []
  | none => []

namespace Reply

variable {r : Reply} {times : Nat}

theorem refusals_zero (r : Reply) : r.refusals 0 = [] := by
  unfold refusals
  split
  · split <;> rfl
  · rfl

theorem refusals_append (r : Reply) (times more : Nat) :
    r.refusals times ++ r.refusals more = r.refusals (times + more) := by
  unfold refusals
  split
  · split
    · exact List.replicate_append_replicate
    · rfl
  · rfl

theorem length_refusals (r : Reply) (times : Nat) :
    (r.refusals times).length = if r.kind.any ErrorKind.isDenial then times else 0 := by
  unfold refusals
  cases r.kind with
  | none => rfl
  | some kind => cases hKind : kind.isDenial <;> simp [hKind]

theorem count_refusals (r : Reply) (times : Nat) (kind : ErrorKind) :
    (r.refusals times).count kind = if r.kind = some kind ∧ kind.isDenial = true then times else 0 := by
  unfold refusals
  cases r.kind with
  | none => simp
  | some other =>
    by_cases hSame : other = kind
    · subst hSame
      cases hKind : other.isDenial <;> simp [hKind]
    · cases hKind : other.isDenial <;> simp [hKind, hSame, List.count_replicate]

end Reply

/-- From `t` to `t'` so many elevations were allowed, and the reply was counted so often if it is a refusal. -/
structure Tally.Counts (t t' : Tally) (r : Reply) (elevated times : Nat) : Prop where
  elevations : t'.count (.elevation false) = t.count (.elevation false) + elevated
  refusals : t'.refusals = r.refusals times ++ t.refusals

namespace Tally

variable {t t' t'' : Tally} {r : Reply} {elevated more times again : Nat}

/-- An event that is neither an elevation that was allowed nor a refusal. -/
theorem counts_cons {e : Event} (hElevation : e ≠ .elevation false) (hDenial : ∀ kind, e ≠ .denial kind) (t : Tally)
    (r : Reply) : Counts t (e :: t) r 0 0 := by
  constructor
  · rw [count, List.countP_cons_of_neg (by simpa using hElevation)]
    rfl
  · rw [Reply.refusals_zero, refusals, List.filterMap_cons_none]
    · rfl
    · cases e with
      | denial kind => exact absurd rfl (hDenial kind)
      | command | badLine | elevation | restore => rfl

theorem counts_elevation (t : Tally) (r : Reply) : Counts t (.elevation false :: t) r 1 0 := by
  constructor
  · rw [count, List.countP_cons_of_pos (by simp)]
    rfl
  · rw [Reply.refusals_zero]
    rfl

theorem Counts.trans (h : Counts t t' r elevated times) (h' : Counts t' t'' r more again) :
    Counts t t'' r (elevated + more) (again + times) := by
  constructor
  · rw [h'.elevations, h.elevations, Nat.add_assoc]
  · rw [h'.refusals, h.refusals, ← List.append_assoc, Reply.refusals_append]

theorem Counts.refl (t : Tally) (r : Reply) : Counts t t r 0 0 := ⟨rfl, by rw [Reply.refusals_zero]; rfl⟩

end Tally

namespace Shell

open Session Tally

variable {o : ShellOptions} {markup : Bool} {sh after : Shell} {r : Reply} {elevated times : Nat}

theorem counts_countRefusal (sh : Shell) (r : Reply) : Counts sh.tally (sh.countRefusal r.kind).tally r 0 1 := by
  unfold countRefusal
  cases hKind : r.kind with
  | none => exact ⟨rfl, by rw [Reply.refusals, hKind]; rfl⟩
  | some kind =>
    dsimp only
    unfold Tally.refuse
    cases hDenial : kind.isDenial with
    | true => exact ⟨rfl, by rw [Reply.refusals, hKind]; dsimp only; rw [hDenial]; rfl⟩
    | false => exact ⟨rfl, by rw [Reply.refusals, hKind]; dsimp only; rw [hDenial]; rfl⟩

/-- A stage that has run counts its reply once more. -/
theorem counts_countRun {t : Tally} (h : Counts t after.tally r elevated times) (name : String) :
    Counts t (after.countRun name r).tally r elevated (times + 1) := by
  have hCommand := counts_cons (e := .command name r.failed) (by simp) (by simp) after.tally r
  have hBoth := h.trans (hCommand.trans (counts_countRefusal (after.count (.command name r.failed)) r))
  rwa [Nat.add_comm times]

/-- A block that can be left hands on the reply from inside. -/
theorem fst_elevate {name : String} {inner : Shell → Reply × Shell}
    (h : (leaveElevation sh.session.enterElevation.1
      (inner { sh with session := sh.session.enterElevation.2 }).2.session).1 = .ok ()) :
    (sh.elevate name inner).1 = (inner { sh with session := sh.session.enterElevation.2 }).1 := by
  unfold Shell.elevate
  dsimp only
  split
  · rfl
  · rename_i hLeave
    rw [hLeave] at h
    cases h

theorem counts_elevate {t : Tally} {name : String} {inner : Shell → Reply × Shell}
    (hLeave : (leaveElevation sh.session.enterElevation.1
      (inner { sh with session := sh.session.enterElevation.2 }).2.session).1 = .ok ())
    (h : Counts t (inner { sh with session := sh.session.enterElevation.2 }).2.tally
      (inner { sh with session := sh.session.enterElevation.2 }).1 elevated times) :
    Counts t (sh.elevate name inner).2.tally (sh.elevate name inner).1 elevated times := by
  rw [fst_elevate hLeave, tally_elevate]
  exact h

/-- The reply to a chain of stages is counted by the last one that was reached and by all that have elevated it. -/
theorem runChain_counts (sh : Shell) (piped : Option String) {stages : List Line.Stage}
    (hOuter : ∀ outer ∈ stages.dropLast, outer.name = Utility.elevate.name) : ∃ depth ≤ stages.dropLast.length,
      Counts sh.tally (sh.runChain o piped markup stages).2.tally (sh.runChain o piped markup stages).1 depth
        (depth + 1) := by
  induction stages generalizing sh with
  | nil => exact ⟨0, Nat.le_refl 0, rfl, rfl⟩
  | cons stage inners ih =>
    cases hName : Utility.ofName? stage.name with
    | none =>
      -- an unknown command is counted by no stage, and is no refusal either
      refine ⟨0, Nat.zero_le _, ?_⟩
      simp only [runChain, hName]
      exact ⟨rfl, rfl⟩
    | some u =>
      by_cases hAdmin : (u.isAdminOnly && !sh.session.subject.isAdmin) = true
      · refine ⟨0, Nat.zero_le _, ?_⟩
        simp only [runChain, hName, if_pos hAdmin]
        exact counts_countRefusal sh (.error (Refusal.adminOnly stage.name).message .permissionDenied)
      · simp only [runChain, hName, if_neg hAdmin]
        have hAct : ∃ depth ≤ (stage :: inners).dropLast.length, Counts sh.tally
            ((sh.perform stage.name (u.act ⟨stage, piped, markup⟩)).2.countRun stage.name
              (sh.perform stage.name (u.act ⟨stage, piped, markup⟩)).1).tally
            (sh.perform stage.name (u.act ⟨stage, piped, markup⟩)).1 depth (depth + 1) := by
          refine ⟨0, Nat.zero_le _, counts_countRun ?_ stage.name⟩
          rw [tally_perform]
          exact .refl sh.tally _
        cases inners with
        | nil => exact hAct
        | cons inner inners =>
          rw [List.dropLast_cons_of_ne_nil (List.cons_ne_nil inner inners)] at hOuter hAct ⊢
          have hInners := (List.forall_mem_cons.mp hOuter).2
          simp only [List.head?_cons]
          split
          · exact hAct
          · split
            · have hBlocked := counts_cons (e := .elevation true) (by decide) (by simp) sh.tally
              exact ⟨0, Nat.zero_le _, counts_countRun (hBlocked _) stage.name⟩
            · let inside : Shell := { sh.count (.elevation false) with session := sh.session.enterElevation.2 }
              obtain ⟨depth, hDepth, hCounts⟩ := ih inside hInners
              have hLogins : Logins inside.session (runChain o piped markup (inner :: inners) inside).2.session _ :=
                runChain_logins inside piped hInners
              have hElevated := (counts_elevation sh.tally _).trans hCounts
              refine ⟨1 + depth, ?_, ?_⟩
              · rw [List.length_cons]
                omega
              · rw [Nat.add_comm 1 depth] at hElevated ⊢
                have hCarried :=
                  @counts_elevate (sh.count (.elevation false)) _ _ _ stage.name _ hLogins.leave.1 hElevated
                exact counts_countRun hCarried stage.name

theorem counts_cap {t t' : Tally} (h : Counts t t' r elevated times) (limit : Int) :
    Counts t t' (r.cap limit) elevated times := by
  have hKind : (r.cap limit).kind = r.kind := by
    unfold Reply.cap
    split <;> rfl
  refine ⟨h.elevations, ?_⟩
  rw [h.refusals, Reply.refusals, Reply.refusals, hKind]

theorem run_stage_counts {line : String} {stage : Line.Stage} (hLine : Line.parse line = .command stage none)
    (o : ShellOptions) (markup : Bool) (sh : Shell) : ∃ r after, ∃ depth ≤ stage.chain.dropLast.length,
      sh.run o markup line = (.ok r, after) ∧ Counts sh.tally after.tally r depth (depth + 1) := by
  rw [run]
  split
  · exact ⟨.exit, sh, 0, Nat.zero_le _, rfl, rfl, rfl⟩
  · have hOuter : ∀ outer ∈ stage.chain.dropLast, outer.name = Utility.elevate.name :=
      fun _ => Line.Stage.name_of_mem_dropLast_chainFrom
    obtain ⟨depth, hDepth, hCounts⟩ := runChain_counts sh none hOuter
    rw [hLine]
    exact ⟨_, _, depth, hDepth, rfl, counts_cap hCounts o.outputLimit⟩

/-- Whatever a line with a single stage is refused for is counted once for that stage, and once more for each elevation
that was allowed on the way to the refusal; what is no refusal is not counted. -/
theorem run_counts {line : String} {stage : Line.Stage} (hLine : Line.parse line = .command stage none)
    (o : ShellOptions) (markup : Bool) (sh : Shell) : ∃ r after depth, sh.run o markup line = (.ok r, after) ∧
      after.tally.count (.elevation false) = sh.tally.count (.elevation false) + depth ∧
      (stage.name ≠ Utility.elevate.name → depth = 0) ∧
      after.tally.denials = sh.tally.denials + (if r.kind.any ErrorKind.isDenial then depth + 1 else 0) ∧
      ∀ kind, after.tally.count (.denial kind) =
        sh.tally.count (.denial kind) + if r.kind = some kind ∧ kind.isDenial = true then depth + 1 else 0 := by
  obtain ⟨r, after, depth, hDepth, hRun, hCounts⟩ := run_stage_counts hLine o markup sh
  refine ⟨r, after, depth, hRun, hCounts.elevations, ?_, ?_, fun kind => ?_⟩
  · intro hName
    rw [Line.Stage.chain_of_ne hName] at hDepth
    exact Nat.le_zero.mp hDepth
  · rw [← length_refusals, hCounts.refusals, List.length_append, Reply.length_refusals, length_refusals, Nat.add_comm]
  · rw [← count_refusals, hCounts.refusals, List.count_append, Reply.count_refusals, count_refusals, Nat.add_comm]

/-- Nobody removes the root. Where that was elevated twice, three stages have counted it. -/
theorem counts_of_root_removal : ∃ s r after, Session.fresh? "user" 0.0 = some s ∧
    Line.parse "sudo sudo rmdir /" = .command ⟨"sudo", ["sudo", "rmdir", "/"], [], "sudo sudo rmdir /"⟩ none ∧
    run .default false "sudo sudo rmdir /" ⟨s, []⟩ = (.ok r, after) ∧ r.kind = some .notPermitted ∧
    after.tally.count (.elevation false) = 2 ∧ after.tally.denials = 3 ∧
    after.tally.count (.denial .notPermitted) = 3 := by
  have hLine : Line.parse "sudo sudo rmdir /" =
      .command ⟨"sudo", ["sudo", "rmdir", "/"], [], "sudo sudo rmdir /"⟩ none := by
    decide +kernel
  have hRun : (Session.fresh? "user" 0.0).map (fun s =>
      let (result, after) := run .default false "sudo sudo rmdir /" ⟨s, []⟩
      (result.toOption.bind Reply.kind, after.tally.count (.elevation false))) = some (some .notPermitted, 2) := by
    decide +kernel
  obtain ⟨s, hFresh, hFacts⟩ := Option.map_eq_some_iff.mp hRun
  obtain ⟨r, after, depth, hEnd, hElevations, -, hDenials, hEach⟩ := run_counts hLine .default false ⟨s, []⟩
  rw [hEnd] at hFacts
  obtain ⟨hKind, hAllowed⟩ : r.kind = some .notPermitted ∧ after.tally.count (.elevation false) = 2 :=
    Prod.mk.inj hFacts
  obtain rfl : depth = 2 := (Nat.zero_add depth).symm.trans (hElevations.symm.trans hAllowed)
  refine ⟨s, r, after, hFresh, hLine, hEnd, hKind, hAllowed, ?_, ?_⟩
  · rw [hDenials, hKind]
    rfl
  · rw [hEach, if_pos ⟨hKind, rfl⟩]
    rfl

theorem not_counted_once : ¬∀ (sh : Shell) (line : String) (stage : Line.Stage),
    Line.parse line = .command stage none → ∃ r after, sh.run .default false line = (.ok r, after) ∧
      after.tally.denials = sh.tally.denials + if r.kind.any ErrorKind.isDenial then 1 else 0 := by
  intro hAll
  have hLine : Line.parse "sudo rmdir /" = .command ⟨"sudo", ["rmdir", "/"], [], "sudo rmdir /"⟩ none := by
    decide +kernel
  have hRun : (Session.fresh? "user" 0.0).map (fun s => (run .default false "sudo rmdir /" ⟨s, []⟩).2.tally.denials) =
      some 2 := by
    decide +kernel
  obtain ⟨s, -, hTwice⟩ := Option.map_eq_some_iff.mp hRun
  obtain ⟨r, after, hEnd, hOnce⟩ := hAll ⟨s, []⟩ _ _ hLine
  rw [hEnd] at hTwice
  dsimp only at hTwice
  rw [hTwice] at hOnce
  have hNone : Tally.denials [] = 0 := rfl
  rw [hNone] at hOnce
  split at hOnce
  · cases hOnce
  · cases hOnce

end Shell

end VirtualShell
