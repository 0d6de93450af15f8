import VirtualShell.Proofs.Session.Logins
import VirtualShell.Proofs.Shell.Place

/-!
# Who acts after a command line

Elevated blocks end with the commands in them, whether these succeed, fail or crash. So after a line no
block is open that was not open before, and the user is the same unless the line has logged one in.
-/
namespace VirtualShell
set_option autoImplicit false

open Session

def Line.Stage.login? (stage : Line.Stage) (r : Reply) : Option String :=
  if stage.name == Utility.su.name && !r.failed then some (stage.args.head?.getD adminName) else none

namespace Line.Stage

theorem chainFrom_ne_nil (fuel : Nat) (stage : Line.Stage) : stage.chainFrom fuel ≠ [] := by
  cases fuel with
  | zero => exact List.cons_ne_nil stage []
  | succ fuel =>
    rw [Line.Stage.chainFrom]
    split
    · split
      · exact List.cons_ne_nil _ _
      · exact List.cons_ne_nil _ _
    · exact List.cons_ne_nil _ _

/-- Only a stage that elevates stands before another one in a chain. -/
theorem name_of_mem_dropLast_chainFrom {fuel : Nat} {stage outer : Line.Stage}
    (h : outer ∈ (stage.chainFrom fuel).dropLast) : outer.name = Utility.elevate.name := by
  induction fuel generalizing stage with
  | zero => cases h
  | succ fuel ih =>
    rw [Line.Stage.chainFrom] at h
    split at h
    · rename_i hName
      split at h
      · rename_i inner _
        rw [List.dropLast_cons_of_ne_nil (chainFrom_ne_nil fuel inner)] at h
        rcases List.mem_cons.mp h with rfl | hInner
        · exact beq_iff_eq.mp hName
        · exact ih hInner
      · cases h
    · cases h

end Line.Stage

theorem Utility.name_of_ofName? {name : String} {u : Utility} (h : ofName? name = some u) : u.name = name := by
  simpa using List.find?_some h

theorem Utility.name_injective {u v : Utility} (h : u.name = v.name) : u = v := by
  have hSame := congrArg Utility.ofName? h
  rwa [Utility.ofName?_name, Utility.ofName?_name, Option.some_inj] at hSame

theorem Line.Stage.login?_eq_none {stage : Line.Stage} {u : Utility} (hName : stage.name = u.name) (hu : u ≠ .su)
    (r : Reply) : stage.login? r = none := by
  rw [login?, hName, beq_false_of_ne fun hSame => hu (Utility.name_injective hSame)]
  rfl

namespace Shell

variable {o : ShellOptions} {markup : Bool} {sh : Shell}

def ranChain (o : ShellOptions) (piped : Option String) (markup : Bool) :
    List Line.Stage → Shell → List (Line.Stage × Reply)
  | [], _ => []
  | stage :: inners, sh =>
    match Utility.ofName? stage.name with
    | none => []
    | some u =>
      if u.isAdminOnly && !sh.session.subject.isAdmin then []
      else
        let elevated :=
          match inners.head? with
          | none => []
          | some inner =>
            if stage.args.isEmpty || isBlocked o.denied inner.name inner.args inner.flags then []
            else
              let sh := sh.count (.elevation false)
              ranChain o piped markup inners { sh with session := sh.session.enterElevation.2 }
        elevated ++ [(stage, (sh.runChain o piped markup (stage :: inners)).1)]

/-- The stages of a pipeline that ran, and those that they elevated, in the order in which they ended. -/
def ranStages (o : ShellOptions) (markup : Bool) (piped : Option String) :
    List Line.Stage → Shell → List (Line.Stage × Reply)
  | [], _ => []
  | [stage], sh => ranChain o piped markup stage.chain sh
  | stage :: next :: rest, sh =>
    let (r, after) := sh.runStage o piped false stage
    ranChain o piped false stage.chain sh ++
      if r.failed then [] else ranStages o markup (some r.output) (next :: rest) after

def ranLine (o : ShellOptions) (markup : Bool) (line : Line.ParsedLine) (sh : Shell) : List (Line.Stage × Reply) :=
  match line with
  | .empty _ | .error .. => []
  | .command stage redirect => ranStages o (markup && redirect.isNone) none [stage] sh
  | .pipeline stages _ redirect => ranStages o (markup && redirect.isNone) none stages sh

def ran (o : ShellOptions) (markup : Bool) (line : String) (sh : Shell) : List (Line.Stage × Reply) :=
  if exitCommands.contains (trimText line) then [] else ranLine o markup (Line.parse line) sh

def loginsOf (ran : List (Line.Stage × Reply)) : List String := ran.filterMap fun (stage, r) => stage.login? r

def commands (sh : Shell) : List (String × Bool) :=
  sh.tally.filterMap fun e =>
    match e with
    | .command name failed => some (name, failed)
    | _ => none

def outcome : Line.Stage × Reply → String × Bool
  | (stage, r) => (stage.name, r.failed)

theorem commands_countRefusal (sh : Shell) (kind : Option ErrorKind) :
    (sh.countRefusal kind).commands = sh.commands := by
  cases kind with
  | none => rfl
  | some kind =>
    unfold commands countRefusal Tally.refuse
    dsimp only
    split
    · rfl
    · rfl

theorem commands_countRun (sh : Shell) (name : String) (r : Reply) :
    (sh.countRun name r).commands = (name, r.failed) :: sh.commands := by
  rw [countRun, commands_countRefusal]
  rfl

theorem tally_perform (sh : Shell) (name : String) (act : Act Reply) : (sh.perform name act).2.tally = sh.tally := by
  unfold Shell.perform
  split
  · rfl
  · rfl

theorem tally_elevate (sh : Shell) (name : String) (inner : Shell → Reply × Shell) :
    (sh.elevate name inner).2.tally = (inner { sh with session := sh.session.enterElevation.2 }).2.tally := by
  unfold Shell.elevate
  dsimp only
  split
  · rfl
  · rfl

theorem tally_writeOutput (sh : Shell) (redirect : Line.Redirect) (output : String) :
    (sh.writeOutput redirect output).2.tally = sh.tally := by
  unfold writeOutput
  split
  · rfl
  · rfl
  · rfl

theorem commands_congr {sh sh' : Shell} (h : sh'.tally = sh.tally) : sh'.commands = sh.commands := by
  rw [commands, h, commands]

theorem commands_runChain (sh : Shell) (piped : Option String) (stages : List Line.Stage) :
    (sh.runChain o piped markup stages).2.commands =
      ((ranChain o piped markup stages sh).map outcome).reverse ++ sh.commands := by
  induction stages generalizing sh with
  | nil => rfl
  | cons stage inners ih =>
    have hAct : ∀ u : Utility, (sh.perform stage.name (u.act ⟨stage, piped, markup⟩)).2.commands = sh.commands :=
      fun u => commands_congr (tally_perform sh stage.name _)
    rw [ranChain]
    cases hName : Utility.ofName? stage.name with
    | none => simp only [runChain, hName, List.map_nil, List.reverse_nil, List.nil_append]
    | some u =>
      dsimp only
      split
      · rename_i hAdmin
        simp only [runChain, hName, if_pos hAdmin, commands_countRefusal, List.map_nil, List.reverse_nil,
          List.nil_append]
      · rename_i hAdmin
        rw [List.map_append, List.map_singleton, List.reverse_append, List.reverse_singleton, List.singleton_append,
          outcome, List.cons_append]
        simp only [runChain, hName, if_neg hAdmin, commands_countRun]
        congr 1
        cases inners with
        | nil => exact hAct u
        | cons inner inners =>
          simp only [List.head?_cons]
          cases hEmpty : stage.args.isEmpty with
          | true => exact hAct u
          | false =>
            simp only [Bool.false_or, Bool.false_eq_true, if_false]
            split
            · rfl
            · rw [commands_congr (tally_elevate _ _ _)]
              exact ih _

theorem commands_runStages (sh : Shell) (markup : Bool) (piped : Option String) (stages : List Line.Stage) :
    (sh.runStages o markup piped stages).2.commands =
      ((ranStages o markup piped stages sh).map outcome).reverse ++ sh.commands := by
  induction stages generalizing sh piped with
  | nil => rfl
  | cons stage rest ih =>
    cases rest with
    | nil => exact commands_runChain sh piped stage.chain
    | cons next rest =>
      have hFirst : (sh.runStage o piped false stage).2.commands =
          ((ranChain o piped false stage.chain sh).map outcome).reverse ++ sh.commands :=
        commands_runChain sh piped stage.chain
      rw [runStages, ranStages, List.map_append, List.reverse_append, List.append_assoc, ← hFirst]
      dsimp only
      split
      · rfl
      · exact ih _ _

theorem commands_runLine (stages : List Line.Stage) (redirect : Option Line.Redirect) :
    (sh.runLine o markup stages redirect).2.commands =
      ((ranStages o (markup && redirect.isNone) none stages sh).map outcome).reverse ++ sh.commands := by
  rw [← commands_runStages, runLine]
  cases redirect with
  | none => rfl
  | some target =>
    dsimp only
    split
    · rfl
    · exact commands_congr (tally_writeOutput _ _ _)

/-- The commands that a line ran are those that it counts, in the same order. -/
theorem commands_run (o : ShellOptions) (markup : Bool) (line : String) (sh : Shell) :
    (sh.run o markup line).2.commands = ((ran o markup line sh).map outcome).reverse ++ sh.commands := by
  rw [run, ran]
  split
  · rfl
  · cases Line.parse line with
    | empty raw => rfl
    | error fault raw => rfl
    | command stage redirect => exact commands_runLine [stage] redirect
    | pipeline stages raw redirect => exact commands_runLine stages redirect

/-- The reply to a login tells whether it has succeeded. -/
theorem perform_su_logins (stage : Line.Stage) (piped : Option String) (hName : stage.name = Utility.su.name) :
    Logins sh.session (sh.perform stage.name (Utility.su.act ⟨stage, piped, markup⟩)).2.session
      (stage.login? (sh.perform stage.name (Utility.su.act ⟨stage, piped, markup⟩)).1).toList := by
  have hEnds := logins_switchUser sh.session (stage.args.head?.getD adminName)
  have hLogin : ∀ r : Reply, stage.login? r = if r.failed then none else some (stage.args.head?.getD adminName) := by
    intro r
    rw [Line.Stage.login?, hName]
    cases r.failed <;> rfl
  have hRun := Act.run_su ⟨stage, piped, markup⟩ sh.session
  have hArgs : Call.args ⟨stage, piped, markup⟩ = stage.args := rfl
  rw [hArgs] at hRun
  rw [Shell.perform, Utility.act, hRun, hLogin]
  cases hSwitch : (switchUser (stage.args.head?.getD adminName)).run sh.session with
  | mk result t =>
    cases result with
    | ok name => exact hEnds.answer _ _ hSwitch
    | error fault =>
      have hSame := hEnds.unchanged _ _ hSwitch
      subst hSame
      cases fault with
      | refused r => exact .refl
      | crashed c => exact .refl

theorem perform_logins {u : Utility} {stage : Line.Stage} (piped : Option String)
    (hName : Utility.ofName? stage.name = some u) :
    Logins sh.session (sh.perform stage.name (u.act ⟨stage, piped, markup⟩)).2.session
      (stage.login? (sh.perform stage.name (u.act ⟨stage, piped, markup⟩)).1).toList := by
  have hName := (Utility.name_of_ofName? hName).symm
  by_cases hu : u = .su
  · subst hu
    exact perform_su_logins stage piped hName
  · rw [Line.Stage.login?_eq_none hName hu, session_perform]
    refine Utility.act_keeps (P := fun t => Logins sh.session t []) (fun op hop s hs => ?_) hu _ .refl
    exact hs.trans (logins_apply op (fun username hEq => by rw [hEq] at hop; exact hop) s)

theorem loginsOf_append (xs ys : List (Line.Stage × Reply)) : loginsOf (xs ++ ys) = loginsOf xs ++ loginsOf ys :=
  List.filterMap_append

theorem loginsOf_singleton (stage : Line.Stage) (r : Reply) : loginsOf [(stage, r)] = (stage.login? r).toList := by
  simp only [loginsOf, List.filterMap_cons, List.filterMap_nil]
  cases stage.login? r <;> rfl

/-- A command that elevates is followed by what it elevated, and any other one does what it does itself. -/
theorem runChain_logins (sh : Shell) (piped : Option String) {stages : List Line.Stage}
    (hOuter : ∀ outer ∈ stages.dropLast, outer.name = Utility.elevate.name) :
    Logins sh.session (sh.runChain o piped markup stages).2.session (loginsOf (ranChain o piped markup stages sh)) := by
  induction stages generalizing sh with
  | nil => exact .refl
  | cons stage inners ih =>
    rw [ranChain]
    cases hName : Utility.ofName? stage.name with
    | none =>
      simp only [runChain, hName]
      exact .refl
    | some u =>
      dsimp only
      split
      · rename_i hAdmin
        simp only [runChain, hName, if_pos hAdmin, session_countRefusal]
        exact .refl
      · rename_i hAdmin
        rw [loginsOf_append, loginsOf_singleton]
        simp only [runChain, hName, if_neg hAdmin, session_countRun]
        cases inners with
        | nil => exact perform_logins piped hName
        | cons inner inners =>
          obtain ⟨hStage, hInners⟩ : stage.name = Utility.elevate.name ∧
              ∀ outer ∈ (inner :: inners).dropLast, outer.name = Utility.elevate.name := by
            rw [List.dropLast_cons_of_ne_nil (List.cons_ne_nil inner inners)] at hOuter
            exact List.forall_mem_cons.mp hOuter
          simp only [List.head?_cons]
          cases hEmpty : stage.args.isEmpty with
          | true => exact perform_logins piped hName
          | false =>
            simp only [Bool.false_or, Bool.false_eq_true, if_false]
            have hNone := Line.Stage.login?_eq_none (u := .elevate) hStage (by decide)
            split
            · rename_i hBlocked
              rw [hNone]
              exact .refl
            · rw [hNone, session_elevate, Option.toList_none, List.append_nil]
              exact (Logins.leave (ih { sh.count (.elevation false) with session := sh.session.enterElevation.2 }
                hInners)).2

theorem runStages_logins (sh : Shell) (markup : Bool) (piped : Option String) (stages : List Line.Stage) :
    Logins sh.session (sh.runStages o markup piped stages).2.session
      (loginsOf (ranStages o markup piped stages sh)) := by
  have hStage : ∀ (sh : Shell) (markup : Bool) (piped : Option String) (stage : Line.Stage),
      Logins sh.session (sh.runStage o piped markup stage).2.session
        (loginsOf (ranChain o piped markup stage.chain sh)) :=
    fun sh _ piped _ => runChain_logins sh piped fun _ => Line.Stage.name_of_mem_dropLast_chainFrom
  induction stages generalizing sh piped with
  | nil => exact .refl
  | cons stage rest ih =>
    cases rest with
    | nil => exact hStage sh markup piped stage
    | cons next rest =>
      rw [runStages, ranStages, loginsOf_append]
      dsimp only
      refine (hStage sh false piped stage).trans ?_
      split
      · exact .refl
      · exact ih _ _

theorem runLine_logins (stages : List Line.Stage) (redirect : Option Line.Redirect) :
    Logins sh.session (sh.runLine o markup stages redirect).2.session
      (loginsOf (ranStages o (markup && redirect.isNone) none stages sh)) := by
  have hStages : Logins sh.session (sh.runStages o (markup && redirect.isNone) none stages).2.session _ :=
    runStages_logins sh _ none stages
  rw [runLine]
  split
  rename_i r after hRun
  rw [hRun] at hStages
  cases redirect with
  | none => exact hStages
  | some target =>
    dsimp only
    split
    · exact hStages
    · have hWrite := keeps_operation (P := fun t => Logins after.session t [])
        (.write (some target.target) (redirected r.output) target.append) rfl
        (fun s hs => hs.still (logins_apply (.write ..) (fun _ hSwitch => by cases hSwitch) s)) after.session .refl
      refine hStages.still ?_
      unfold writeOutput
      split
      · rename_i hEnd
        rwa [hEnd] at hWrite
      · rename_i hEnd
        rwa [hEnd] at hWrite
      · rename_i hEnd
        rwa [hEnd] at hWrite

theorem run_logins (line : String) :
    Logins sh.session (sh.run o markup line).2.session (loginsOf (ran o markup line sh)) := by
  rw [run, ran]
  split
  · exact .refl
  · cases Line.parse line with
    | empty raw => exact .refl
    | error fault raw => exact .refl
    | command stage redirect => exact runLine_logins [stage] redirect
    | pipeline stages raw redirect => exact runLine_logins stages redirect

/-- After a line the elevations are those before it, and whoever acts is the user of the last login in the
line or, without one, who acted before. -/
theorem run_identity (o : ShellOptions) (markup : Bool) (line : String) (sh : Shell) :
    (sh.run o markup line).2.session.elevations = sh.session.elevations ∧
      (sh.run o markup line).2.session.username =
        (loginsOf (ran o markup line sh)).getLast?.getD sh.session.username :=
  ⟨(run_logins line).elevations, (run_logins line).username⟩

end Shell

end VirtualShell
