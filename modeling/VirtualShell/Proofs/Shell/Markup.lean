import VirtualShell.Proofs.Shell.Answers
import VirtualShell.Proofs.Shell.Shows

/-!
# Lines with and without markup

A line that may answer with markup does the same as one that may not, and what it answers shows what the
other one says. Only the last command of a line is asked for markup, and only where its output goes to the
terminal, so no markup gets into a pipe or a file.
-/
namespace VirtualShell
set_option autoImplicit false

open Session

namespace Act

variable {α β α' β' : Type} {s : Session} {R : α → β → Prop} {S : α' → β' → Prop} {a : Act α} {b : Act β}

structure Agree (s : Session) (R : α → β → Prop) (a : Act α) (b : Act β) : Prop where
  left : (a.run s).2 = s
  right : (b.run s).2 = s
  answers : Result.Agree R (a.run s).1 (b.run s).1

theorem agree_pure {x : α} {y : β} (h : R x y) : Agree s R (pure x : Act α) (pure y : Act β) :=
  ⟨rfl, rfl, .ok h⟩

theorem agree_bind {f : α → Act α'} {g : β → Act β'} (h : Agree s R a b)
    (hNext : ∀ x y, R x y → Agree s S (f x) (g y)) : Agree s S (a >>= f) (b >>= g) := by
  obtain ⟨hLeft, hRight, hAnswers⟩ := h
  cases ha : a.run s with
  | mk ra t =>
    cases hb : b.run s with
    | mk rb u =>
      rw [ha, hb] at hAnswers
      have ht : t = s := by rwa [ha] at hLeft
      have hu : u = s := by rwa [hb] at hRight
      subst ht hu
      cases hAnswers with
      | ok hxy =>
        obtain ⟨hLeft, hRight, hAnswers⟩ := hNext _ _ hxy
        refine ⟨?_, ?_, ?_⟩
        all_goals simp only [run_bind, ha, hb]
        · exact hLeft
        · exact hRight
        · exact hAnswers
      | error c =>
        refine ⟨?_, ?_, ?_⟩
        all_goals simp only [run_bind, ha, hb]
        exact .error c

theorem agree_inspect {see : Session → Except Fault α} {see' : Session → Except Fault β}
    (h : Result.Agree R (see s) (see' s)) :
    Agree s (fun x y => Result.Agree R x y ∧ ∀ r, x = .error r → see s = .error (.refused r))
      (inspect see) (inspect see') := by
  have hRun := Update.run_look see s
  have hRun' := Update.run_look see' s
  generalize hx : see s = x at h hRun
  generalize hy : see' s = y at h hRun'
  refine ⟨?_, ?_, ?_⟩
  all_goals simp only [inspect, run_attempt, hRun, hRun']
  · cases h with
    | ok hxy => rfl
    | error fault => cases fault <;> rfl
  · cases h with
    | ok hxy => rfl
    | error fault => cases fault <;> rfl
  · cases h with
    | ok hxy =>
      refine .ok ⟨.ok hxy, fun r hEq => ?_⟩
      cases hEq
    | error fault =>
      cases fault with
      | refused r =>
        refine .ok ⟨.error r, fun r' hEq => ?_⟩
        cases hEq
        rfl
      | crashed c => exact .error c

/-- What is found at single operands stands for what is found at them without markup. -/
theorem agree_gather {act act' : String → Act Lines}
    (h : ∀ operand, Agree s (fun x y => List.Forall₂ Renders x.1 y.1 ∧ List.Forall₂ Problem.Shows x.2 y.2)
      (act operand) (act' operand)) (operands : List String) :
    Agree s (fun x y => List.Forall₂ Renders x.1 y.1 ∧ List.Forall₂ Problem.Shows x.2 y.2)
      (gather operands act) (gather operands act') := by
  induction operands with
  | nil => exact agree_pure ⟨.nil, .nil⟩
  | cons operand rest ih =>
    refine agree_bind (h operand) fun x y hFirst => agree_bind ih fun x' y' hRest => agree_pure ?_
    exact ⟨List.rel_append hFirst.1 hRest.1, List.rel_append hFirst.2 hRest.2⟩

theorem agree_ls (stage : Line.Stage) (piped : Option String) (h : s.root.Named) :
    Agree s Reply.Shows (Listing.ls ⟨stage, piped, true⟩) (Listing.ls ⟨stage, piped, false⟩) := by
  unfold Listing.ls
  dsimp only
  let style : Listing.Style :=
    { hidden := stage.flags.anyOn ["a", "all"], long := stage.flags.anyOn ["l"], markup := false,
      headed := (if stage.args.isEmpty then ["."] else stage.args).length > 1 }
  refine agree_bind (agree_gather (fun target => ?_) _) fun x y hFound =>
    agree_pure (Listing.reply_shows style hFound.1 hFound.2)
  have hNever : NeverRefused (Listing.listOperand style.marked target s) := Listing.neverRefused_listOperand
  refine agree_bind (agree_inspect (Listing.listOperand_agree style target h)) fun x y ⟨hOperand, hRefused⟩ => ?_
  cases hOperand with
  | error r => exact absurd (hRefused r rfl) (hNever r)
  | @ok m p hShows =>
    cases m with
    | ok ms =>
      cases p with
      | ok ps => exact agree_pure ⟨hShows, .nil⟩
      | error p => exact hShows.elim
    | error m =>
      cases p with
      | ok ps => exact hShows.elim
      | error p => exact agree_pure ⟨.nil, .cons hShows .nil⟩

theorem agree_grep (stage : Line.Stage) (piped : Option String) :
    Agree s Reply.Shows (Lookup.grep ⟨stage, piped, true⟩) (Lookup.grep ⟨stage, piped, false⟩) := by
  unfold Lookup.grep Call.args
  dsimp only
  split
  · exact agree_pure (.refl rfl)
  · rename_i pattern paths _
    have hReply : Result.Agree Reply.Shows (Lookup.grepReply s ⟨stage, piped, true⟩ pattern paths)
        (Lookup.grepReply s ⟨stage, piped, false⟩ pattern paths) := by
      refine Result.Agree.bind_same fun found => ?_
      cases found with
      | none => exact .ok (.refl rfl)
      | some r =>
        dsimp only
        split
        · exact .ok (.refl rfl)
        · exact Result.Agree.bind_same fun read => .ok (Lookup.reply_shows r read _)
    refine agree_bind (agree_inspect hReply) fun x y ⟨hShows, _⟩ => ?_
    cases hShows with
    | ok hShows => exact agree_pure hShows
    | error r => exact agree_pure (.refl rfl)

end Act

/-- No command but the two that may answer with markup looks whether it may. -/
theorem Utility.act_markup {u : Utility} (hList : u ≠ .ls) (hSearch : u ≠ .grep) (stage : Line.Stage)
    (piped : Option String) : u.act ⟨stage, piped, true⟩ = u.act ⟨stage, piped, false⟩ := by
  cases u with
  | ls => exact absurd rfl hList
  | grep => exact absurd rfl hSearch
  | _ => rfl

theorem Utility.act_shows (u : Utility) (stage : Line.Stage) (piped : Option String) {s : Session}
    (h : s.root.Named) :
    ((u.act ⟨stage, piped, true⟩).run s).2 = ((u.act ⟨stage, piped, false⟩).run s).2 ∧
      Result.Agree Reply.Shows ((u.act ⟨stage, piped, true⟩).run s).1 ((u.act ⟨stage, piped, false⟩).run s).1 := by
  by_cases hList : u = .ls
  · subst hList
    obtain ⟨hLeft, hRight, hAnswers⟩ := Act.agree_ls stage piped h
    exact ⟨hLeft.trans hRight.symm, hAnswers⟩
  · by_cases hSearch : u = .grep
    · subst hSearch
      obtain ⟨hLeft, hRight, hAnswers⟩ : Act.Agree s Reply.Shows _ _ := Act.agree_grep stage piped
      exact ⟨hLeft.trans hRight.symm, hAnswers⟩
    · rw [Utility.act_markup hList hSearch]
      refine ⟨rfl, ?_⟩
      cases hRun : ((u.act ⟨stage, piped, false⟩).run s).1 with
      | ok r => exact .ok (.refl (Utility.act_plain hList hSearch _ s r hRun))
      | error c => exact .error c

def Session.AllNamed (_ : List Mark) (s : Session) : Prop := s.root.Named

theorem Session.invariant_named : Invariant AllNamed where
  operate o h := steps_named o _ h
  login {marks s t username name} h hRun := by
    obtain ⟨-, -, hSwitched⟩ := (switchUser_ends s username).answer _ _ hRun
    rw [hSwitched]
    exact h
  enter h := h
  leave {mark marks s} h := by
    rw [AllNamed, root_leave]
    exact h

namespace Shell

/-- Two runs that end alike: the reply of the first shows what that of the second says. -/
structure Alike (m p : Reply × Shell) : Prop where
  reply : Reply.Shows m.1 p.1
  shell : m.2 = p.2

variable {sh : Shell} {o : ShellOptions}

theorem Alike.refl {x : Reply × Shell} (h : x.1.markup = false) : Alike x x := ⟨.refl h, rfl⟩

theorem perform_alike {a b : Act Reply} (name : String) (hSession : (a.run sh.session).2 = (b.run sh.session).2)
    (hAnswers : Result.Agree Reply.Shows (a.run sh.session).1 (b.run sh.session).1) :
    Alike (sh.perform name a) (sh.perform name b) := by
  unfold Shell.perform
  cases ha : a.run sh.session with
  | mk ra s =>
    cases hb : b.run sh.session with
    | mk rb t =>
      rw [ha, hb] at hSession hAnswers
      have hSame : s = t := hSession
      subst hSame
      cases hAnswers with
      | ok hShows => exact ⟨hShows, rfl⟩
      | error c => exact .refl rfl

theorem elevate_alike {inner inner' : Shell → Reply × Shell} (name : String)
    (h : ∀ sh' : Shell, sh'.session.root = sh.session.root → Alike (inner sh') (inner' sh')) :
    Alike (sh.elevate name inner) (sh.elevate name inner') := by
  obtain ⟨hReply, hShell⟩ := h { sh with session := sh.session.enterElevation.2 } rfl
  unfold Shell.elevate
  dsimp only
  rw [hShell]
  split
  · exact ⟨hReply, rfl⟩
  · exact .refl rfl

theorem Alike.countRun {x y : Reply × Shell} (h : Alike x y) (name : String) :
    Alike (x.1, x.2.countRun name x.1) (y.1, y.2.countRun name y.1) := by
  refine ⟨h.reply, ?_⟩
  dsimp only
  rw [Shell.countRun, Shell.countRun, h.shell, h.reply.failed, h.reply.kind]

/-- A stage and those that it elevates, the innermost of which is asked for markup. -/
theorem runChain_alike (piped : Option String) (stages : List Line.Stage) (h : sh.session.root.Named) :
    Alike (sh.runChain o piped true stages) (sh.runChain o piped false stages) := by
  induction stages generalizing sh with
  | nil => exact .refl rfl
  | cons stage inners ih =>
    have hAct : ∀ u : Utility, Alike (sh.perform stage.name (u.act ⟨stage, piped, true⟩))
        (sh.perform stage.name (u.act ⟨stage, piped, false⟩)) := by
      intro u
      obtain ⟨hSession, hAnswers⟩ := Utility.act_shows u stage piped h
      exact perform_alike stage.name hSession hAnswers
    rw [runChain, runChain]
    split
    · exact .refl rfl
    · rename_i u _
      split
      · exact .refl rfl
      · refine Alike.countRun ?_ stage.name
        split
        · exact hAct u
        · split
          · exact hAct u
          · split
            · exact .refl rfl
            · refine elevate_alike stage.name fun sh' hRoot => ih ?_
              rw [hRoot]
              exact h

/-- All stages but the last are the same run in both cases. -/
theorem runStages_alike (piped : Option String) (stages : List Line.Stage) (h : sh.session.root.Named) :
    Alike (sh.runStages o true piped stages) (sh.runStages o false piped stages) := by
  induction stages generalizing sh piped with
  | nil => exact .refl rfl
  | cons stage rest ih =>
    cases rest with
    | nil => exact runChain_alike piped stage.chain h
    | cons next rest =>
      have hPlain : (sh.runStage o piped false stage).1.markup = false := (runChain_alike piped stage.chain h).reply.plain
      have hFirst : AllNamed [] (sh.runStage o piped false stage).2.session :=
        runChain_keeps (invariant_named.of fun _ => True) piped (fun inner _ => inner.spelled_true) h
      rw [runStages, runStages]
      dsimp only
      split
      · exact .refl hPlain
      · exact ih _ hFirst

theorem writeOutput_agree (sh : Shell) (redirect : Line.Redirect) (output : String) :
    Result.Agree Reply.Shows (sh.writeOutput redirect output).1 (sh.writeOutput redirect output).1 := by
  unfold writeOutput
  split
  · exact .ok (.refl rfl)
  · exact .ok (.refl rfl)
  · exact .error _

theorem cap_of_unlimited {limit : Int} (h : limit ≤ 0) (r : Reply) : r.cap limit = r := by
  rw [Reply.cap, decide_eq_true h, Bool.true_or, if_pos rfl]

theorem runLine_alike (hLimit : o.outputLimit ≤ 0) (stages : List Line.Stage) (redirect : Option Line.Redirect)
    (h : sh.session.root.Named) :
    (sh.runLine o true stages redirect).2 = (sh.runLine o false stages redirect).2 ∧
      Result.Agree Reply.Shows (sh.runLine o true stages redirect).1 (sh.runLine o false stages redirect).1 := by
  obtain ⟨hReply, hShell⟩ : Alike (sh.runStages o true none stages) (sh.runStages o false none stages) :=
    runStages_alike none stages h
  cases redirect with
  | none =>
    simp only [runLine, Option.isNone_none, Bool.and_true, cap_of_unlimited hLimit]
    exact ⟨hShell, .ok hReply⟩
  | some target =>
    -- what is redirected is never asked for markup, so that this is one run
    simp only [runLine, Option.isNone_some, Bool.and_false, cap_of_unlimited hLimit]
    refine ⟨trivial, ?_⟩
    split
    · exact .ok (.refl hReply.plain)
    · exact writeOutput_agree _ target _

/-- Whether a line may answer with markup or not, it leaves the same session behind, and what it answers with
markup is, without the tags, what it answers without markup, escaped. -/
theorem run_shows {sh : Shell} {o : ShellOptions} (hLimit : o.outputLimit ≤ 0)
    (hNames : ∀ path n, (path, n) ∈ sh.session.root.walk "/" → n.name ≠ "") (line : String) :
    (sh.run o true line).2 = (sh.run o false line).2 ∧
      Result.Agree Reply.Shows (sh.run o true line).1 (sh.run o false line).1 := by
  have hNamed : sh.session.root.Named := .of_walk hNames
  unfold Shell.run
  split
  · exact ⟨rfl, .ok (.refl rfl)⟩
  · cases Line.parse line with
    | empty raw => exact ⟨rfl, .ok (.refl rfl)⟩
    | error fault raw => exact ⟨rfl, .ok (.refl rfl)⟩
    | command stage redirect => exact runLine_alike hLimit [stage] redirect hNamed
    | pipeline stages raw redirect => exact runLine_alike hLimit stages redirect hNamed

/-- A listing goes through a pipe without markup, and what is found in it is marked. -/
theorem piped_listing_shows : ∃ s, Session.fresh? "user" 0.0 = some s ∧ ShellOptions.outputLimit ⟨[], 0⟩ ≤ 0 ∧
    (∀ path n, (path, n) ∈ s.root.walk "/" → n.name ≠ "") ∧
    ((Shell.mk s []).run ⟨[], 0⟩ true "ls / | grep tmp").1.toOption.map Reply.output =
      some "bin  etc  home  root  <span class=\"grep-match\">tmp</span>  var" ∧
    ((Shell.mk s []).run ⟨[], 0⟩ true "ls / | grep tmp").2 = ((Shell.mk s []).run ⟨[], 0⟩ false "ls / | grep tmp").2 ∧
      Result.Agree Reply.Shows ((Shell.mk s []).run ⟨[], 0⟩ true "ls / | grep tmp").1
        ((Shell.mk s []).run ⟨[], 0⟩ false "ls / | grep tmp").1 := by
  have hRun : (Session.fresh? "user" 0.0).map (fun s =>
      ((Shell.mk s []).run ⟨[], 0⟩ true "ls / | grep tmp").1.toOption.map Reply.output) =
      some (some "bin  etc  home  root  <span class=\"grep-match\">tmp</span>  var") := by
    decide +kernel
  obtain ⟨s, hFresh, hOutput⟩ := Option.map_eq_some_iff.mp hRun
  have hNamed := (Session.Reached.start hFresh).named
  have hNames : ∀ path n, (path, n) ∈ s.root.walk "/" → n.name ≠ "" :=
    fun _ _ hn => (hNamed.of_mem_walk hn).here
  exact ⟨s, hFresh, Int.le_refl 0, hNames, hOutput, run_shows (Int.le_refl 0) hNames "ls / | grep tmp"⟩

end Shell

end VirtualShell
