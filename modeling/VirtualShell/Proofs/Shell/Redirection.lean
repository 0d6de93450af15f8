import VirtualShell.Proofs.Line.Redirected
import VirtualShell.Proofs.Shell.Markup

/-!
# Redirected lines

The commands of a redirected line run as they do without the redirect, unless they are asked for markup.
What they say is then written to the target, in the session that they leave, or given back if they fail.
-/
namespace VirtualShell.Shell
set_option autoImplicit false

variable {o o' : ShellOptions}

/-- The limit of an output plays no part before the end of a line. -/
theorem runChain_congr (hDenied : o.denied = o'.denied) (piped : Option String) (markup : Bool)
    (stages : List Line.Stage) (sh : Shell) :
    sh.runChain o piped markup stages = sh.runChain o' piped markup stages := by
  induction stages generalizing sh with
  | nil => rfl
  | cons stage inners ih =>
    have hInner : runChain o piped markup inners = runChain o' piped markup inners := funext ih
    simp only [runChain, hDenied, hInner]

theorem runStages_congr (hDenied : o.denied = o'.denied) (markup : Bool) (piped : Option String)
    (stages : List Line.Stage) (sh : Shell) :
    sh.runStages o markup piped stages = sh.runStages o' markup piped stages := by
  induction stages generalizing piped sh with
  | nil => rfl
  | cons stage rest ih =>
    cases rest with
    | nil => exact runChain_congr hDenied piped markup stage.chain sh
    | cons next rest =>
      have hStage : sh.runStage o piped false stage = sh.runStage o' piped false stage :=
        runChain_congr hDenied piped false stage.chain sh
      simp only [runStages, hStage, ih]

/-- A line without a redirect gives back what its last command says. -/
theorem execute_plain {line : Line.ParsedLine} (h : line.isPlain = true) (markup : Bool) (sh : Shell) :
    sh.execute o markup line = (.ok ((sh.runStages o markup none line.stages).1.cap o.outputLimit),
      (sh.runStages o markup none line.stages).2) := by
  have hLine : ∀ stages, sh.runLine o markup stages none =
      (.ok ((sh.runStages o markup none stages).1.cap o.outputLimit), (sh.runStages o markup none stages).2) := by
    intro stages
    rw [runLine, Option.isNone_none, Bool.and_true]
  cases line with
  | empty raw => cases h
  | error fault raw => cases h
  | command stage redirect =>
    cases redirect with
    | none => exact hLine [stage]
    | some r => cases h
  | pipeline stages raw redirect =>
    cases redirect with
    | none => exact hLine stages
    | some r => cases h

theorem execute_redirects {line redirected : Line.ParsedLine} {r : Line.Redirect} (h : line.Redirects r redirected)
    (markup : Bool) (sh : Shell) : sh.execute o markup redirected =
      if (sh.runStages o false none line.stages).1.failed then
        (.ok ((sh.runStages o false none line.stages).1.cap o.outputLimit), (sh.runStages o false none line.stages).2)
      else (sh.runStages o false none line.stages).2.writeOutput r (sh.runStages o false none line.stages).1.output := by
  have hLine : ∀ stages, sh.runLine o markup stages (some r) =
      if (sh.runStages o false none stages).1.failed then
        (.ok ((sh.runStages o false none stages).1.cap o.outputLimit), (sh.runStages o false none stages).2)
      else (sh.runStages o false none stages).2.writeOutput r (sh.runStages o false none stages).1.output := by
    intro stages
    rw [runLine, Option.isNone_some, Bool.and_false]
  cases h with
  | command stage => exact hLine [stage]
  | pipeline stages raw raw' => exact hLine stages

/-- A line with a redirect behind it does what it does by itself, without markup. What it says then, uncapped,
is written to the target as it stands in the session left behind. A line that fails gives back its reply and
writes nothing, and otherwise the reply is that of the write. -/
theorem execute_redirected {line : String} (h : (Line.parse line).isPlain = true) (o : ShellOptions) (markup append : Bool)
    (target : String) (sh : Shell) :
    ∃ r after, sh.execute { o with outputLimit := 0 } false (Line.parse line) = (.ok r, after) ∧
      sh.execute o false (Line.parse line) = (.ok (r.cap o.outputLimit), after) ∧
      sh.execute o markup (Line.parse (line ++ ((if append then " >> " else " > ") ++ Line.quoteWord target))) =
        if r.failed then (.ok (r.cap o.outputLimit), after)
        else
          match (Session.writeFile (some target) (if r.output = "" then "" else r.output ++ "\n") append).run
            after.session with
          | (.ok _, s) => (.ok .silent, { after with session := s })
          | (.error (.refused refusal), s) =>
            (.ok (.error ("bash: " ++ refusal.message) refusal.kind), { after with session := s })
          | (.error (.crashed c), s) => (.error c, { after with session := s }) := by
  have hSame : runStages { o with outputLimit := 0 } false none (Line.parse line).stages sh =
      runStages o false none (Line.parse line).stages sh :=
    runStages_congr (by rfl) false none (Line.parse line).stages sh
  have hUncapped := execute_plain (o := { o with outputLimit := 0 }) h false sh
  rw [hSame, cap_of_unlimited (Int.le_refl 0)] at hUncapped
  have hRedirected := execute_redirects (o := o) (Line.parse_append_writeRedirect h ⟨append, target⟩) markup sh
  refine ⟨_, _, hUncapped, execute_plain h false sh, hRedirected.trans ?_⟩
  generalize sh.runStages o false none (Line.parse line).stages = ended
  obtain ⟨r, after⟩ := ended
  have hText : redirected r.output = if r.output = "" then "" else r.output ++ "\n" := by
    simp only [redirected, beq_iff_eq]
  dsimp only
  split
  · rfl
  · rw [writeOutput, hText]
    dsimp only
    generalize (Session.writeFile (some target) _ append).run after.session = written
    obtain ⟨result, s⟩ := written
    cases result with
    | ok answer => rfl
    | error fault => cases fault <;> rfl

/-- The line ends with a backslash, and there is a blank in the name of the target. -/
theorem redirected_behind_backslash : ∃ s, Session.fresh? "user" 0.0 = some s ∧
    (Line.parse "echo ready\\").isPlain = true ∧
    let sh : Shell := ⟨s, []⟩
    let line := Line.parse "echo ready\\"
    let redirected := Line.parse ("echo ready\\" ++ (" > " ++ Line.quoteWord "it is"))
    ((sh.execute .default true redirected).2.session.readFile (some "it is")).toOption = some "ready\\\n" ∧
    ∃ r after, sh.execute { ShellOptions.default with outputLimit := 0 } false line = (.ok r, after) ∧
      sh.execute .default false line = (.ok (r.cap ShellOptions.default.outputLimit), after) ∧
      sh.execute .default true redirected =
        if r.failed then (.ok (r.cap ShellOptions.default.outputLimit), after)
        else
          match (Session.writeFile (some "it is") (if r.output = "" then "" else r.output ++ "\n") false).run
            after.session with
          | (.ok _, s) => (.ok .silent, { after with session := s })
          | (.error (.refused refusal), s) =>
            (.ok (.error ("bash: " ++ refusal.message) refusal.kind), { after with session := s })
          | (.error (.crashed c), s) => (.error c, { after with session := s }) := by
  have hPlain : (Line.parse "echo ready\\").isPlain = true := by decide +kernel
  have hRun : (Session.fresh? "user" 0.0).map (fun s =>
      ((execute .default true (Line.parse ("echo ready\\" ++ (" > " ++ Line.quoteWord "it is")))
        ⟨s, []⟩).2.session.readFile (some "it is")).toOption) = some (some "ready\\\n") := by
    decide +kernel
  obtain ⟨s, hFresh, hRead⟩ := Option.map_eq_some_iff.mp hRun
  have hRedirected := execute_redirected hPlain .default true false "it is" ⟨s, []⟩
  rw [if_neg Bool.false_ne_true] at hRedirected
  exact ⟨s, hFresh, hPlain, hRead, hRedirected⟩

end VirtualShell.Shell
