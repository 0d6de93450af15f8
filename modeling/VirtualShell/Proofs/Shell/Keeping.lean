import VirtualShell.Proofs.Line.Bundles
import VirtualShell.Proofs.Line.Spelling
import VirtualShell.Proofs.Session.Run
import VirtualShell.Shell.Run

/-!
# What command lines keep

A command changes the session by operations alone, and by going home when the user was switched. A line
runs commands one after the other, some of them in elevated blocks. So whatever operations, logins and
the two ends of a block keep, every line keeps. Of an account that is added the name is a word of the line.
-/
namespace VirtualShell
set_option autoImplicit false

/-- What a command that switches nobody may do, given its words: whom it enlists is one of them. -/
def Operation.TakenFrom (words : List String) : Operation → Prop
  | .addUser username .. => username ∈ words
  | .switchUser _ => False
  | _ => True

def Operation.SpelledWith (p : Char → Prop) : Operation → Prop
  | .addUser username .. => Line.Spelled p username.toList
  | _ => True

theorem Operation.TakenFrom.spelledWith {p : Char → Prop} {words : List String} {o : Operation}
    (h : o.TakenFrom words) (hWords : ∀ w ∈ words, Line.Spelled p w.toList) : o.SpelledWith p := by
  cases o with
  | addUser username groups primary createHome => exact hWords username h
  | _ => trivial

namespace Act

variable {α β : Type} {P : Session → Prop}

def Keeps (P : Session → Prop) (a : Act α) : Prop := ∀ s, P s → P (a.run s).2

theorem keeps_pure (x : α) : Keeps P (pure x : Act α) := fun _ h => h

theorem run_bind (a : Act α) (f : α → Act β) (s : Session) : (a >>= f).run s =
    match a.run s with
    | (.ok x, t) => (f x).run t
    | (.error c, t) => (.error c, t) := by
  change ExceptT.bindCont f (a.run s).1 (a.run s).2 = _
  split
  · rename_i hRun
    rw [hRun]
    rfl
  · rename_i hRun
    rw [hRun]
    rfl

theorem run_attempt (u : Update α) (s : Session) : (attempt u).run s =
    match u.run s with
    | (.ok a, t) => (.ok (.ok a), t)
    | (.error (.refused r), t) => (.ok (.error r), t)
    | (.error (.crashed c), t) => (.error c, t) :=
  rfl

theorem keeps_bind {a : Act α} {f : α → Act β} (ha : Keeps P a) (hf : ∀ x, Keeps P (f x)) :
    Keeps P (a >>= f) := by
  intro s hs
  have hMid := ha s hs
  rw [run_bind]
  split
  · rename_i hRun
    rw [hRun] at hMid
    exact hf _ _ hMid
  · rename_i hRun
    rwa [hRun] at hMid

theorem keeps_get : Keeps P (get : Act Session) := fun _ h => h

theorem keeps_attempt {u : Update α} (hu : ∀ s, P s → P (u.run s).2) : Keeps P (attempt u) := by
  intro s hs
  have hAfter := hu s hs
  rw [run_attempt]
  split
  · rename_i hRun
    rwa [hRun] at hAfter
  · rename_i hRun
    rwa [hRun] at hAfter
  · rename_i hRun
    rwa [hRun] at hAfter

theorem keeps_inspect (look : Session → Except Fault α) : Keeps P (inspect look) :=
  keeps_attempt fun _ h => h

theorem keeps_forOperands {act : String → Act (List Problem)} (h : ∀ operand, Keeps P (act operand))
    (operands : List String) : Keeps P (forOperands operands act) := by
  induction operands with
  | nil => exact keeps_pure []
  | cons operand rest ih =>
    exact keeps_bind (h operand) fun problems => keeps_bind ih fun more => keeps_pure (problems ++ more)

theorem keeps_perform {operation : String → Update α} (hu : ∀ operand s, P s → P ((operation operand).run s).2)
    (operands : List String) (blame : String → Refusal → Problem) : Keeps P (perform operands operation blame) := by
  refine keeps_bind (keeps_forOperands (fun operand => ?_) operands) fun problems => keeps_pure _
  refine keeps_bind (keeps_attempt (hu operand)) fun result => ?_
  cases result with
  | ok _ => exact keeps_pure []
  | error r => exact keeps_pure [blame operand r]

theorem keeps_gather {act : String → Act Lines} (h : ∀ operand, Keeps P (act operand)) (operands : List String) :
    Keeps P (gather operands act) := by
  induction operands with
  | nil => exact keeps_pure ([], [])
  | cons operand rest ih =>
    exact keeps_bind (h operand) fun found => keeps_bind ih fun more => keeps_pure _

theorem keeps_mapM {act : α → Act β} (h : ∀ x, Keeps P (act x)) (xs : List α) : Keeps P (xs.mapM act) := by
  induction xs with
  | nil => exact keeps_pure []
  | cons x xs ih =>
    rw [List.mapM_cons]
    exact keeps_bind (h x) fun y => keeps_bind ih fun ys => keeps_pure (y :: ys)

end Act

namespace Session

/-- What operations, logins and the two ends of an elevated block keep; the marks are those of the
blocks that are open. -/
structure Invariant (P : List Mark → Session → Prop) : Prop where
  operate : ∀ {marks s} (o : Operation), P marks s → P marks (s.apply o).2
  login : ∀ {marks s t} {username name : String}, P marks s →
    (switchUser username).run s = (.ok name, t) → P marks t.goHome
  enter : ∀ {marks s}, P marks s → P (s.enterElevation.1 :: marks) s.enterElevation.2
  leave : ∀ {mark marks s}, P (mark :: marks) s → P marks (leaveElevation mark s).2

/-- An invariant as long as all names of new accounts are spelled with characters that have `p`. -/
structure InvariantOf (p : Char → Prop) (P : List Mark → Session → Prop) : Prop where
  operate : ∀ {marks s} (o : Operation), o.SpelledWith p → P marks s → P marks (s.apply o).2
  login : ∀ {marks s t} {username name : String}, P marks s →
    (switchUser username).run s = (.ok name, t) → P marks t.goHome
  enter : ∀ {marks s}, P marks s → P (s.enterElevation.1 :: marks) s.enterElevation.2
  leave : ∀ {mark marks s}, P (mark :: marks) s → P marks (leaveElevation mark s).2

theorem Invariant.of {P : List Mark → Session → Prop} (h : Invariant P) (p : Char → Prop) : InvariantOf p P :=
  ⟨fun o _ => h.operate o, h.login, h.enter, h.leave⟩

end Session

open Act Session

section

variable {P : Session → Prop}

theorem keeps_silently {α : Type} {u : Update α} (command : String) (hu : ∀ s, P s → P (u.run s).2) :
    Keeps P (Identity.silently command u) := by
  refine keeps_bind (keeps_attempt hu) fun result => ?_
  cases result with
  | ok _ => exact keeps_pure Reply.silent
  | error r => exact keeps_pure (Reply.refused command r)

theorem keeps_describe (command : String) (c : Call) (text : Account → String) :
    Keeps P (Identity.describe command c text) := by
  refine keeps_bind keeps_get fun s => ?_
  dsimp only
  split
  · exact keeps_pure _
  · exact keeps_pure _

theorem keeps_inputs (command : String) (paths : List String) (piped : Option String) :
    Keeps P (Content.inputs command paths piped) := by
  unfold Content.inputs
  split
  · exact keeps_pure _
  · refine keeps_bind (keeps_mapM (fun path => ?_) paths) fun found => keeps_pure _
    exact keeps_bind (keeps_inspect _) fun result => keeps_pure (path, result)

theorem keeps_cat (c : Call) : Keeps P (Content.cat c) := by
  unfold Content.cat
  split
  · exact keeps_pure _
  · exact keeps_pure _
  · exact keeps_bind (keeps_inputs _ _ _) fun found => keeps_pure _

theorem keeps_less (c : Call) : Keeps P (Content.less c) := by
  unfold Content.less
  split
  · exact keeps_pure _
  · exact keeps_pure _
  · refine keeps_bind (keeps_inspect _) fun result => ?_
    cases result with
    | ok _ => exact keeps_pure _
    | error _ => exact keeps_pure _

theorem keeps_nano (c : Call) : Keeps P (Content.nano c) := by
  unfold Content.nano
  split
  · exact keeps_pure _
  · refine keeps_bind (keeps_inspect _) fun result => ?_
    cases result with
    | ok _ => exact keeps_pure _
    | error _ => exact keeps_pure _

theorem keeps_excerpt (command : String) (choose : Nat → List String → List String) (c : Call) :
    Keeps P (Content.excerpt command choose c) := by
  unfold Content.excerpt
  dsimp only
  split
  · exact keeps_pure _
  · exact keeps_bind (keeps_inputs _ _ _) fun found => keeps_pure _

theorem keeps_find (c : Call) : Keeps P (Lookup.find c) := by
  unfold Lookup.find
  split
  · exact keeps_pure _
  · refine keeps_bind (keeps_gather (fun start => ?_) _) fun found => keeps_pure _
    refine keeps_bind (keeps_inspect _) fun result => ?_
    cases result with
    | ok _ => exact keeps_pure _
    | error _ => exact keeps_pure _

theorem keeps_grep (c : Call) : Keeps P (Lookup.grep c) := by
  unfold Lookup.grep
  split
  · exact keeps_pure _
  · refine keeps_bind (keeps_inspect _) fun result => ?_
    cases result with
    | ok _ => exact keeps_pure _
    | error _ => exact keeps_pure _

theorem keeps_ls (c : Call) : Keeps P (Listing.ls c) := by
  refine keeps_bind (keeps_gather (fun target => ?_) _) fun found => keeps_pure _
  refine keeps_bind (keeps_inspect _) fun result => ?_
  cases result with
  | ok block =>
    cases block with
    | ok _ => exact keeps_pure _
    | error _ => exact keeps_pure _
  | error _ => exact keeps_pure _

theorem keeps_stat (c : Call) : Keeps P (Change.stat c) := by
  unfold Change.stat
  split
  · exact keeps_pure _
  · refine keeps_bind (keeps_gather (fun path => ?_) _) fun found => keeps_pure _
    refine keeps_bind (keeps_inspect _) fun result => ?_
    cases result with
    | ok _ => exact keeps_pure _
    | error _ => exact keeps_pure _

theorem keeps_transfer (command : String) {operation : String → String → Update String}
    (hu : ∀ source dest s, P s → P ((operation source dest).run s).2) (c : Call) :
    Keeps P (Change.transfer command operation c) := by
  unfold Change.transfer
  split
  · exact keeps_pure _
  · exact keeps_pure _
  · dsimp only
    split
    · refine keeps_bind (keeps_pure _) fun ready => ?_
      split
      · exact keeps_perform (fun source => hu source _) _ _
      · exact keeps_pure _
    · refine keeps_bind (keeps_inspect _) fun ready => ?_
      split
      · exact keeps_perform (fun source => hu source _) _ _
      · exact keeps_pure _

/-- An operation that a command makes use of. -/
theorem keeps_operation {α : Type} {u : Update α} {g : α → Answer} (o : Operation) (ho : steps o = g <$> u)
    (h : ∀ s, P s → P (s.apply o).2) : ∀ s, P s → P (u.run s).2 := by
  intro s hs
  have hAfter := h s hs
  rwa [apply, ho, Update.snd_run_map] at hAfter

theorem keeps_changeModes (mode : String) (h : ∀ path s, P s → P (s.apply (.changeMode (some path) mode)).2)
    (paths : List String) : Keeps P (Change.changeModes mode paths) := by
  induction paths with
  | nil => exact keeps_pure _
  | cons path rest ih =>
    refine keeps_bind (keeps_attempt (keeps_operation (.changeMode (some path) mode) rfl (h path))) fun result => ?_
    cases result with
    | ok _ => exact ih
    | error r =>
      dsimp only
      split
      · exact keeps_pure _
      · exact keeps_bind ih fun more => keeps_pure _

end

section

variable {P : Session → Prop} {c : Call}
  (h : ∀ o : Operation, o.TakenFrom c.words → ∀ s, P s → P (s.apply o).2)

include h

theorem keeps_rm : Keeps P (Change.rm c) := by
  unfold Change.rm
  dsimp only
  split
  · exact keeps_pure _
  · refine keeps_bind (keeps_forOperands (fun path => ?_) _) fun problems => keeps_pure _
    refine keeps_bind (keeps_attempt (keeps_operation (.remove (some path) _) rfl (h _ trivial))) fun result => ?_
    cases result with
    | ok _ => exact keeps_pure _
    | error r => exact keeps_pure _

theorem keeps_cp : Keeps P (Change.cp c) :=
  keeps_transfer "cp" (fun source dest => keeps_operation (.copy (some source) (some dest) _) rfl (h (.copy ..) trivial)) c

theorem keeps_mv : Keeps P (Change.mv c) :=
  keeps_transfer "mv" (fun source dest => keeps_operation (.move (some source) (some dest)) rfl (h (.move ..) trivial)) c

theorem keeps_useradd : Keeps P (Identity.useradd c) := by
  unfold Identity.useradd
  split
  · exact keeps_pure _
  · rename_i options username hOptions
    have hWord := Line.readOptions_subset hOptions username (List.mem_singleton_self username)
    exact keeps_silently "useradd" (keeps_operation (.addUser username _ _ true) rfl (h _ hWord))
  · exact keeps_pure _

theorem keeps_usermod : Keeps P (Identity.usermod c) := by
  unfold Identity.usermod
  split
  · exact keeps_pure _
  · split
    · exact keeps_silently "usermod" (keeps_operation (.changeGroups _ _ _) rfl (h _ trivial))
    · exact keeps_pure _

theorem keeps_touch : Keeps P (Change.touch c) := by
  unfold Change.touch
  split
  · exact keeps_pure _
  · exact keeps_perform (fun path => keeps_operation (.createFile (some path) "") rfl (h _ trivial)) _ _

theorem keeps_mkdir : Keeps P (Change.mkdir c) := by
  unfold Change.mkdir
  split
  · exact keeps_pure _
  · exact keeps_perform (fun path => keeps_operation (.createDirectory (some path) _) rfl (h _ trivial)) _ _

theorem keeps_rmdir : Keeps P (Change.rmdir c) := by
  unfold Change.rmdir
  split
  · exact keeps_pure _
  · exact keeps_perform (fun path => keeps_operation (.removeDirectory (some path)) rfl (h _ trivial)) _ _

theorem keeps_chmod : Keeps P (Change.chmod c) := by
  unfold Change.chmod
  split
  · exact keeps_bind (keeps_changeModes _ (fun path => h _ trivial) _) fun problems => keeps_pure _
  · exact keeps_pure _

theorem keeps_chown : Keeps P (Change.chown c) := by
  unfold Change.chown
  split
  · exact keeps_perform (fun path => keeps_operation (.changeOwner (some path) _ _) rfl (h _ trivial)) _ _
  · exact keeps_pure _

theorem keeps_cd : Keeps P (Identity.cd c) := by
  unfold Identity.cd
  split
  · exact keeps_silently "cd" (keeps_operation (.changeDirectory none) rfl (h _ trivial))
  · exact keeps_silently "cd" (keeps_operation (.changeDirectory (some _)) rfl (h _ trivial))
  · exact keeps_pure _

theorem keeps_groupadd : Keeps P (Identity.groupadd c) := by
  unfold Identity.groupadd
  split
  · exact keeps_silently "groupadd" (keeps_operation (.addGroup _) rfl (h _ trivial))
  · exact keeps_pure _

theorem keeps_userdel : Keeps P (Identity.userdel c) := by
  unfold Identity.userdel
  split
  · exact keeps_silently "userdel" (keeps_operation (.deleteUser _ _) rfl (h _ trivial))
  · exact keeps_pure _

/-- Commands that switch nobody. -/
theorem Utility.act_keeps {u : Utility} (hu : u ≠ .su) : Keeps P (u.act c) := by
  cases u with
  | apropos => exact keeps_pure _
  | cat => exact keeps_cat c
  | cd => exact keeps_cd h
  | chmod => exact keeps_chmod h
  | chown => exact keeps_chown h
  | cp => exact keeps_cp h
  | echo => exact keeps_pure _
  | find => exact keeps_find c
  | grep => exact keeps_grep c
  | groupadd => exact keeps_groupadd h
  | groups => exact keeps_describe "groups" c _
  | head => exact keeps_excerpt "head" (fun count lines => lines.take count) c
  | id => exact keeps_describe "id" c _
  | less => exact keeps_less c
  | ls => exact keeps_ls c
  | man => exact keeps_pure _
  | mkdir => exact keeps_mkdir h
  | mv => exact keeps_mv h
  | nano => exact keeps_nano c
  | pwd => exact keeps_bind keeps_get fun s => keeps_pure _
  | rm => exact keeps_rm h
  | rmdir => exact keeps_rmdir h
  | sort => exact keeps_bind (keeps_inputs "sort" _ _) fun found => keeps_pure _
  | stat => exact keeps_stat c
  | su => exact absurd rfl hu
  | elevate => exact keeps_pure _
  | tail => exact keeps_excerpt "tail" (fun count lines => lines.drop (lines.length - count)) c
  | touch => exact keeps_touch h
  | useradd => exact keeps_useradd h
  | userdel => exact keeps_userdel h
  | usermod => exact keeps_usermod h
  | wc => exact keeps_bind (keeps_inputs "wc" _ _) fun found => keeps_pure _
  | whatis => exact keeps_pure _
  | whoami => exact keeps_bind keeps_get fun s => keeps_pure _

end

/-- Whoever logs in goes home. -/
theorem Act.run_su (c : Call) (s : Session) : (Identity.su c).run s =
    match (switchUser (c.args.head?.getD adminName)).run s with
    | (.ok _, t) => (.ok .silent, t.goHome)
    | (.error (.refused r), t) => (.ok (.refused "su" r), t)
    | (.error (.crashed crash), t) => (.error crash, t) := by
  rw [Identity.su, Identity.silently, run_bind, run_attempt, Update.run_bind]
  cases (switchUser (c.args.head?.getD adminName)).run s with
  | mk result t =>
    cases result with
    | ok name => rfl
    | error fault => cases fault <;> rfl

section

variable {p : Char → Prop} {P : List Mark → Session → Prop} {marks : List Mark}

theorem keeps_su (hP : InvariantOf p P) (c : Call) : Keeps (P marks) (Identity.su c) := by
  intro s hs
  have hEnds := switchUser_ends s (c.args.head?.getD adminName)
  rw [Act.run_su]
  split
  · rename_i hRun
    exact hP.login hs hRun
  · rename_i hRun
    rw [hEnds.unchanged _ _ hRun]
    exact hs
  · rename_i hRun
    rw [hEnds.unchanged _ _ hRun]
    exact hs

theorem Session.InvariantOf.act (hP : InvariantOf p P) (u : Utility) {c : Call} (hStage : c.stage.Spelled p) :
    Keeps (P marks) (u.act c) := by
  by_cases hu : u = .su
  · subst hu
    exact keeps_su hP c
  · refine Utility.act_keeps (fun o ho s => hP.operate o (ho.spelledWith fun w hw => ?_)) hu
    exact Line.spelled_tokenize hStage.raw w (List.mem_of_mem_tail hw)

end

namespace Shell

variable {p : Char → Prop} {P : List Mark → Session → Prop} {marks : List Mark} {sh : Shell} {o : ShellOptions}
  {markup : Bool}

@[simp] theorem session_count (sh : Shell) (e : Event) : (sh.count e).session = sh.session := rfl

@[simp] theorem session_countRefusal (sh : Shell) (kind : Option ErrorKind) :
    (sh.countRefusal kind).session = sh.session := by
  cases kind <;> rfl

@[simp] theorem session_countRun (sh : Shell) (name : String) (r : Reply) :
    (sh.countRun name r).session = sh.session := by
  simp [countRun]

theorem session_perform (sh : Shell) (name : String) (act : Act Reply) :
    (sh.perform name act).2.session = (act.run sh.session).2 := by
  unfold Shell.perform
  split
  · rename_i hRun
    rw [hRun]
  · rename_i hRun
    rw [hRun]

theorem session_elevate (sh : Shell) (name : String) (inner : Shell → Reply × Shell) :
    (sh.elevate name inner).2.session =
      (leaveElevation sh.session.enterElevation.1
        (inner { sh with session := sh.session.enterElevation.2 }).2.session).2 := by
  unfold Shell.elevate
  dsimp only
  split
  · rename_i hLeave
    rw [hLeave]
  · rename_i hLeave
    rw [hLeave]

/-- Each elevated stage runs in one more block. -/
theorem runChain_keeps (hP : InvariantOf p P) (piped : Option String) {stages : List Line.Stage}
    (hStages : ∀ stage ∈ stages, stage.Spelled p) (h : P marks sh.session) :
    P marks (sh.runChain o piped markup stages).2.session := by
  induction stages generalizing sh marks with
  | nil => exact h
  | cons stage inners ih =>
    obtain ⟨hStage, hInners⟩ := List.forall_mem_cons.mp hStages
    have hAct : ∀ u : Utility, P marks (sh.perform stage.name (u.act ⟨stage, piped, markup⟩)).2.session := by
      intro u
      rw [session_perform]
      exact hP.act u hStage _ h
    rw [runChain]
    split
    · exact h
    · rename_i u _
      split
      · rw [session_countRefusal]
        exact h
      · rw [session_countRun]
        split
        · exact hAct u
        · split
          · exact hAct u
          · split
            · exact h
            · rw [session_elevate]
              exact hP.leave (ih hInners (hP.enter h))

theorem runStages_keeps (hP : InvariantOf p P) (piped : Option String) {stages : List Line.Stage}
    (hStages : ∀ stage ∈ stages, stage.Spelled p) (h : P marks sh.session) :
    P marks (sh.runStages o markup piped stages).2.session := by
  induction stages generalizing sh piped with
  | nil => exact h
  | cons stage rest ih =>
    obtain ⟨hStage, hRest⟩ := List.forall_mem_cons.mp hStages
    cases rest with
    | nil => exact runChain_keeps hP piped hStage.chain h
    | cons next rest =>
      have hFirst : P marks (sh.runStage o piped false stage).2.session := runChain_keeps hP piped hStage.chain h
      rw [runStages]
      split
      rename_i r after hRun
      rw [hRun] at hFirst
      split
      · exact hFirst
      · exact ih _ hRest hFirst

theorem runLine_keeps (hP : InvariantOf p P) (stages : List Line.Stage) (redirect : Option Line.Redirect)
    (hStages : ∀ stage ∈ stages, stage.Spelled p) (h : P marks sh.session) :
    P marks (sh.runLine o markup stages redirect).2.session := by
  have hRun : P marks (sh.runStages o (markup && redirect.isNone) none stages).2.session :=
    runStages_keeps hP none hStages h
  rw [runLine]
  split
  rename_i r after hEq
  rw [hEq] at hRun
  cases redirect with
  | none => exact hRun
  | some target =>
    dsimp only
    split
    · exact hRun
    · have hWrite := keeps_operation (.write (some target.target) (redirected r.output) target.append) rfl
        (fun _ => hP.operate (.write _ _ _) trivial) _ hRun
      unfold writeOutput
      split
      · rename_i hEnd
        rwa [hEnd] at hWrite
      · rename_i hEnd
        rwa [hEnd] at hWrite
      · rename_i hEnd
        rwa [hEnd] at hWrite

/-- What operations, logins and blocks keep, every line keeps. -/
theorem run_keeps_of (hP : InvariantOf p P) {line : String} (hLine : Line.Spelled p line.toList) (hSpace : p ' ')
    (h : P marks sh.session) : P marks (sh.run o markup line).2.session := by
  have hStages := Line.spelled_parse hLine hSpace
  rw [run]
  split
  · exact h
  · cases hParse : Line.parse line with
    | empty raw => exact h
    | error fault raw => exact h
    | command stage redirect =>
      rw [hParse] at hStages
      exact runLine_keeps hP [stage] redirect hStages h
    | pipeline stages raw redirect =>
      rw [hParse] at hStages
      exact runLine_keeps hP stages redirect hStages h

theorem run_keeps (hP : Invariant P) (line : String) (h : P marks sh.session) :
    P marks (sh.run o markup line).2.session :=
  run_keeps_of (hP.of fun _ => True) (fun _ _ => trivial) trivial h

end Shell

end VirtualShell
