import VirtualShell.Proofs.Shell.Logins

/-!
# Lines with a single command

A line with one stage that elevates nothing and is open to everybody does what its command does, and counts it:
`run_command`.
-/
namespace VirtualShell
set_option autoImplicit false

namespace Line

theorem Stage.chain_of_ne {stage : Stage} (h : stage.name ≠ Utility.elevate.name) : stage.chain = [stage] := by
  rw [chain]
  cases stage.raw.length with
  | zero => rfl
  | succ fuel => rw [chainFrom, if_neg (by simpa using h)]

/-- The words that end a session are commands to the reader, but of no utility. -/
theorem ofName?_of_exit {line : String} {stage : Stage} {redirect : Option Redirect}
    (hExit : Shell.exitCommands.contains (trimText line) = true) (hLine : parse line = .command stage redirect) :
    Utility.ofName? stage.name = none := by
  have hTrim : Text.trim line.toList = "exit".toList ∨ Text.trim line.toList = "logout".toList := by
    simpa [Shell.exitCommands, trimText, ← String.toList_inj] using hExit
  rcases hTrim with hTrim | hTrim
  · have hRead : parse line = .command ⟨"exit", [], [], "exit"⟩ none := by
      rw [parse, hTrim]
      cbv
    cases hRead.symm.trans hLine
    decide
  · have hRead : parse line = .command ⟨"logout", [], [], "logout"⟩ none := by
      rw [parse, hTrim]
      cbv
    cases hRead.symm.trans hLine
    decide

end Line

namespace Shell

variable {o : ShellOptions} {markup : Bool} {line : String} {stage : Line.Stage} {u : Utility}

theorem run_command (hLine : Line.parse line = .command stage none) (hName : Utility.ofName? stage.name = some u)
    (hElevate : u ≠ .elevate) (hOpen : u.isAdminOnly = false) (o : ShellOptions) (markup : Bool) (sh : Shell) :
    sh.run o markup line =
      let (r, after) := sh.perform stage.name (u.act ⟨stage, none, markup⟩)
      (.ok (r.cap o.outputLimit), after.countRun stage.name r) := by
  have hChain : stage.chain = [stage] := by
    refine Line.Stage.chain_of_ne fun hSame => hElevate (Utility.name_injective ?_)
    rw [Utility.name_of_ofName? hName, hSame]
  rw [run]
  split
  · rename_i hExit
    cases (Line.ofName?_of_exit hExit hLine).symm.trans hName
  · rw [hLine, execute, runLine]
    dsimp only
    rw [runStages, runStage, hChain, runChain, hName]
    simp [hOpen]

end Shell

end VirtualShell
