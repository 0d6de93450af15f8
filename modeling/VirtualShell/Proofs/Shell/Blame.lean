import VirtualShell.Proofs.Session.Absence
import VirtualShell.Proofs.Session.Run
import VirtualShell.Proofs.Shell.Keeping

/-!
# Operands that are blamed

A move or a copy of several operands takes them in turn, each in the session that the one before has left. An operand is
said to be missing if it is, or if it is there and the directory that the destination needs is missing: `blames_exact`.
-/
namespace VirtualShell
set_option autoImplicit false

namespace Act

section

variable {α : Type} (operation : String → Update α)

/-- Each operand with the session in which its turn comes. -/
def turns : List String → Session → List (String × Session)
  | [], _ => []
  | operand :: rest, s => (operand, s) :: turns rest ((operation operand).run s).2

def afterTurns (operands : List String) (s : Session) : Session :=
  operands.foldl (fun t operand => ((operation operand).run t).2) s

def complaint (blame : String → Refusal → Problem) (turn : String × Session) : Option Problem :=
  match ((operation turn.1).run turn.2).1 with
  | .error (.refused r) => some (blame turn.1 r)
  | _ => none

end

variable {α : Type} {operation : String → Update α} {blame : String → Refusal → Problem} {operands : List String}
  {s : Session}

theorem of_mem_turns {P : Session → Prop} (hKeep : ∀ operand s, P s → P ((operation operand).run s).2) (hs : P s) :
    ∀ turn ∈ turns operation operands s, P turn.2 := by
  induction operands generalizing s with
  | nil => exact List.forall_mem_nil _
  | cons operand rest ih => exact List.forall_mem_cons.mpr ⟨hs, ih (hKeep operand s hs)⟩

theorem run_forOperands {act : String → Act (List Problem)} (h : ∀ turn ∈ turns operation operands s,
      (act turn.1).run turn.2 = (.ok (complaint operation blame turn).toList, ((operation turn.1).run turn.2).2)) :
    (forOperands operands act).run s =
      (.ok ((turns operation operands s).filterMap (complaint operation blame)), afterTurns operation operands s) := by
  induction operands generalizing s with
  | nil => rfl
  | cons operand rest ih =>
    obtain ⟨hHere, hRest⟩ := List.forall_mem_cons.mp h
    rw [forOperands, run_bind, hHere]
    dsimp only
    rw [run_bind, ih hRest, turns, List.filterMap_cons]
    cases complaint operation blame (operand, s) <;> rfl

theorem run_turn {operand : String} (h : ∀ c, ((operation operand).run s).1 ≠ .error (.crashed c)) :
    (attempt (operation operand) >>= fun result => match result with
      | .ok _ => pure []
      | .error r => pure [blame operand r] : Act (List Problem)).run s =
      (.ok (complaint operation blame (operand, s)).toList, ((operation operand).run s).2) := by
  rw [run_bind, run_attempt, complaint]
  cases hRun : (operation operand).run s with
  | mk result t =>
    rw [hRun] at h
    cases result with
    | ok a => rfl
    | error fault =>
      cases fault with
      | refused r => rfl
      | crashed c => exact absurd rfl (h c)

theorem run_perform (h : ∀ turn ∈ turns operation operands s, ∀ c,
      ((operation turn.1).run turn.2).1 ≠ .error (.crashed c)) : (perform operands operation blame).run s =
      (.ok (.ofProblems ((turns operation operands s).filterMap (complaint operation blame))),
        afterTurns operation operands s) := by
  rw [perform, run_bind, run_forOperands fun turn hTurn => run_turn (h turn hTurn)]
  rfl

end Act

namespace Refusal

variable {command operand source : String} {r : Refusal}

def absence (command source : String) : String :=
  command ++ ": cannot stat '" ++ source ++ "': " ++ Obstacle.missing.text

/-- No other refusal reads like it, and none of another operand. -/
theorem text_problemWith_iff (h : r.Honest) :
    (r.problemWith command "cannot stat" operand).text = absence command source ↔
      r.kind = .notFound ∧ operand = source := by
  by_cases hKind : r.kind = .notFound
  · rw [problemWith, if_pos (by simp [hKind]), absence, ← String.toList_inj, and_iff_right hKind, ← String.toList_inj]
    simp
  · rw [problemWith, if_neg (by simp [hKind]), absence, ← String.toList_inj]
    refine iff_of_false (fun hText => hKind (h ?_)) fun hBoth => hKind hBoth.1
    have hMessage : r.message.toList = ("cannot stat '" ++ source ++ "': " ++ Obstacle.missing.text).toList := by
      simpa [problem] using hText
    rw [hMessage]
    exact suffix_append _ _

end Refusal

/-- What is done with each operand but the last. -/
inductive Transfer where
  | move
  | copy (recursive : Bool)

namespace Transfer

def utility : Transfer → Utility
  | move => .mv
  | copy _ => .cp

def operation (dest : String) : Transfer → String → Update String
  | move, source => Session.move (some source) (some dest)
  | copy recursive, source => Session.copy (some source) (some dest) recursive

/-- The source has been reached, and nothing but the destination can be wrong any more. -/
def Ready (s : Session) (source dest : String) : Transfer → Prop
  | move => s.Movable source dest
  | copy recursive => s.Copyable source dest recursive

/-- The operand is missing, or it is there and the directory that the destination needs is missing. -/
def Blames (k : Transfer) (s : Session) (source dest : String) : Prop :=
  s.Missing (s.resolve (some source)) ∨ k.Ready s source dest ∧ s.Astray dest

variable {k : Transfer} {s : Session} {source dest : String}

theorem tells (h : s.TreeSound) (k : Transfer) (source dest : String) :
    (k.operation dest source).Tells s (k.Blames s source dest) := by
  cases k with
  | move => exact Session.tells_move h source dest
  | copy recursive => exact Session.tells_copy h source dest recursive

theorem sound_operation (k : Transfer) (dest source : String) (s : Session) (h : s.Sound) :
    ((k.operation dest source).run s).2.Sound := by
  cases k with
  | move => exact (Session.move_changed (some source) (some dest) h.grounded).keeps (fun _ _ h' => (h'.kept h).sound) h
  | copy recursive =>
    exact (Session.copy_changed (some source) (some dest) recursive h.grounded).keeps
      (fun _ _ h' => (h'.kept h).sound) h

def told (k : Transfer) (dest : String) : String × Session → Option Problem :=
  Act.complaint (k.operation dest) fun source r => r.problemWith k.utility.name "cannot stat" source

/-- The line about a missing operand is about the one whose turn it was, and it stands there on two grounds only. -/
theorem told_iff {turn : String × Session} (h : turn.2.TreeSound) (k : Transfer) (dest source : String) :
    (k.told dest turn).map Problem.text = some (Refusal.absence k.utility.name source) ↔
      k.Blames turn.2 turn.1 dest ∧ turn.1 = source := by
  have hTells := (tells h k turn.1 dest).result
  rw [told, Act.complaint]
  generalize ((k.operation dest turn.1).run turn.2).1 = result at hTells
  cases hTells with
  | ok hNot => simp [hNot]
  | refused hKind hHonest =>
    rw [Option.map_some, Option.some_inj, Refusal.text_problemWith_iff hHonest, hKind]

theorem isTarget_eq (h : s.TreeSound) (dest : String) : ∃ ready, Change.isTarget s dest = .ok ready := by
  have hTells := s.tells_reach h.wellFormed (s.resolve (some dest)) (some dest)
  rw [Change.isTarget, Session.stat]
  generalize s.reach (s.resolve (some dest)) (some dest) = result at hTells
  cases hTells with
  | ok _ => exact ⟨_, rfl⟩
  | refused _ _ => exact ⟨_, rfl⟩

theorem operands_eq {args : List String} (h : 2 ≤ args.length) :
    args = args.dropLast ++ [args.getLast?.getD ""] ∧ args.dropLast ≠ [] := by
  have hArgs : args ≠ [] := List.ne_nil_of_length_pos (by omega)
  refine ⟨?_, fun hNil => ?_⟩
  · rw [List.getLast?_eq_some_getLast hArgs, Option.getD_some, List.dropLast_concat_getLast hArgs]
  · have hLength := args.length_dropLast
    rw [hNil, List.length_nil] at hLength
    omega

section

variable {call : Call} {sources : List String} {command : String} {operation : String → String → Update String}

theorem run_transfer (hArgs : call.args = sources ++ [dest]) (hSome : sources ≠ [])
    (hTarget : sources.length = 1 ∨ Change.isTarget s dest = .ok true) :
    (Change.transfer command operation call).run s =
      (Act.perform sources (fun source => operation source dest)
        fun source r => r.problemWith command "cannot stat" source).run s := by
  obtain ⟨first, more, rfl⟩ := List.exists_cons_of_ne_nil hSome
  rw [Change.transfer, hArgs]
  cases more with
  | nil => rfl
  | cons second more =>
    have hSources : (first :: second :: (more ++ [dest])).dropLast = first :: second :: more := by
      rw [← List.cons_append, ← List.cons_append, List.dropLast_concat]
    have hDest : (first :: second :: (more ++ [dest])).getLast? = some dest := by
      rw [← List.cons_append, ← List.cons_append, List.getLast?_concat]
    have hTarget : Change.isTarget s dest = .ok true := hTarget.resolve_left (by simp)
    dsimp only [List.cons_append]
    rw [hSources, hDest, Option.getD_some, if_neg (by simp), Act.run_bind, Act.inspect, Act.run_attempt,
      Update.run_look, hTarget]

theorem run_transfer_short (h : call.args.length < 2) :
    ∃ text, (Change.transfer command operation call).run s = (.ok (.badArgument text), s) := by
  rw [Change.transfer]
  cases hArgs : call.args with
  | nil => exact ⟨_, rfl⟩
  | cons source more =>
    cases more with
    | nil => exact ⟨_, rfl⟩
    | cons dest more =>
      rw [hArgs, List.length_cons, List.length_cons] at h
      omega

/-- Several sources need a directory to be put into. -/
theorem run_transfer_refused (hArgs : call.args = sources ++ [dest]) (hMany : 2 ≤ sources.length)
    (hTarget : Change.isTarget s dest = .ok false) :
    (Change.transfer command operation call).run s =
      (.ok (.error (command ++ ": target '" ++ dest ++ "' is not a directory") .notADirectory), s) := by
  obtain ⟨first, second, more, rfl⟩ : ∃ first second more, sources = first :: second :: more := by
    match sources, hMany with
    | first :: second :: more, _ => exact ⟨first, second, more, rfl⟩
  have hDest : (first :: second :: (more ++ [dest])).getLast? = some dest := by
    rw [← List.cons_append, ← List.cons_append, List.getLast?_concat]
  rw [Change.transfer, hArgs]
  dsimp only [List.cons_append]
  rw [hDest, Option.getD_some, if_neg (by simp), Act.run_bind, Act.inspect, Act.run_attempt, Update.run_look, hTarget]
  rfl

end

theorem sound_turns (h : s.Sound) (k : Transfer) (dest : String) (sources : List String) :
    ∀ turn ∈ Act.turns (k.operation dest) sources s, turn.2.Sound :=
  Act.of_mem_turns (k.sound_operation dest) h

theorem run_sources (h : s.Sound) (k : Transfer) (dest : String) (sources : List String) :
    (Act.perform sources (fun source => k.operation dest source)
        fun source r => r.problemWith k.utility.name "cannot stat" source).run s =
      (.ok (.ofProblems ((Act.turns (k.operation dest) sources s).filterMap (k.told dest))),
        Act.afterTurns (k.operation dest) sources s) := by
  refine Act.run_perform fun turn hTurn c hCrash => ?_
  have hTells := (tells (sound_turns h k dest sources turn hTurn).tree k turn.1 dest).result
  rw [hCrash] at hTells
  cases hTells

def ofCall (call : Call) : Utility → Option Transfer
  | .mv => some .move
  | .cp => some (.copy (call.isOn Change.recursiveFlags))
  | _ => none

theorem act_eq {u : Utility} {call : Call} (h : ofCall call u = some k) : u.name = k.utility.name ∧
    u.act call = Change.transfer k.utility.name (fun source dest => k.operation dest source) call := by
  cases u <;> cases h <;> exact ⟨rfl, rfl⟩

/-- Nothing is there to blame but the source, or the directory of the destination. -/
theorem Blames.lookup_eq_none (h : k.Blames s source dest) : s.lookup (s.resolve (some source)) = none ∨
    s.lookup (Path.parentOf (s.resolve (some dest))) = none :=
  h.imp Session.Missing.lookup_eq_none fun h => h.2.missing.lookup_eq_none

/-- Moves and copies take their operands in turn. The line about a missing operand stands in the output for every one
whose turn finds it missing, or finds it there when the directory that the destination needs is missing, and for no
other. -/
theorem blames_exact {u : Utility} {call : Call} (hSound : s.Sound) (hCall : ofCall call u = some k) :
    let sources := call.args.dropLast
    let dest := call.args.getLast?.getD ""
    (call.args.length < 2 ∧ ∃ text, (u.act call).run s = (.ok (.badArgument text), s)) ∨
    (3 ≤ call.args.length ∧ Change.isTarget s dest = .ok false ∧ (u.act call).run s =
      (.ok (.error (u.name ++ ": target '" ++ dest ++ "' is not a directory") .notADirectory), s)) ∨
    ((u.act call).run s = (.ok (.ofProblems ((Act.turns (k.operation dest) sources s).filterMap (k.told dest))),
        Act.afterTurns (k.operation dest) sources s) ∧
      ∀ turn ∈ Act.turns (k.operation dest) sources s,
        (∀ source, (k.told dest turn).map Problem.text = some (Refusal.absence u.name source) ↔
          k.Blames turn.2 turn.1 dest ∧ turn.1 = source) ∧
        (k.Blames turn.2 turn.1 dest → turn.2.lookup (turn.2.resolve (some turn.1)) = none ∨
          turn.2.lookup (Path.parentOf (turn.2.resolve (some dest))) = none)) := by
  intro sources dest
  obtain ⟨hName, hAct⟩ := act_eq hCall
  rw [hAct, hName]
  by_cases hShort : call.args.length < 2
  · exact .inl ⟨hShort, run_transfer_short hShort⟩
  obtain ⟨hArgs, hSome⟩ : call.args = sources ++ [dest] ∧ sources ≠ [] := operands_eq (Nat.le_of_not_lt hShort)
  have hLength : call.args.length = sources.length + 1 := by
    rw [congrArg List.length hArgs, List.length_append, List.length_singleton]
  obtain ⟨ready, hReady⟩ := isTarget_eq hSound.tree dest
  by_cases hNot : sources.length ≠ 1 ∧ ready = false
  · obtain ⟨hMany, rfl⟩ := hNot
    exact .inr (.inl ⟨by omega, hReady, run_transfer_refused hArgs (by omega) hReady⟩)
  have hTarget : sources.length = 1 ∨ Change.isTarget s dest = .ok true := by
    cases ready with
    | true => exact .inr hReady
    | false => exact .inl (by simpa using hNot)
  refine .inr (.inr ⟨(run_transfer hArgs hSome hTarget).trans (run_sources hSound k dest sources), ?_⟩)
  intro turn hTurn
  have hTree := (sound_turns hSound k dest sources turn hTurn).tree
  exact ⟨fun source => told_iff hTree k dest source, Blames.lookup_eq_none⟩

/-- A file that is moved twice is missing the second time. -/
theorem notes_moved_twice : ∃ s t,
    (let call : Call := ⟨⟨"mv", ["documents/notes.txt", "documents/notes.txt", "/tmp"], [], "mv"⟩, none, false⟩
      let operation := Transfer.move.operation "/tmp"
      Session.fresh? "user" 0.0 = some s ∧ t = ((operation "documents/notes.txt").run s).2 ∧
        (Utility.mv.act call).run s =
          (.ok (.ofProblems [⟨"mv: cannot stat 'documents/notes.txt': No such file or directory", .notFound⟩]),
            Act.afterTurns operation ["documents/notes.txt", "documents/notes.txt"] s) ∧
        Transfer.move.Blames t "documents/notes.txt" "/tmp" ∧
        ¬Transfer.move.Blames s "documents/notes.txt" "/tmp") := by
  have hFacts : (Session.fresh? "user" 0.0).map (fun s =>
      let operation := Transfer.move.operation "/tmp"
      ((Change.isTarget s "/tmp").toOption, Transfer.move.told "/tmp" ("documents/notes.txt", s),
        Transfer.move.told "/tmp" ("documents/notes.txt", ((operation "documents/notes.txt").run s).2))) =
      some (some true, none,
        some ⟨"mv: cannot stat 'documents/notes.txt': No such file or directory", .notFound⟩) := by
    decide +kernel
  obtain ⟨s, hFresh, hFacts⟩ := Option.map_eq_some_iff.mp hFacts
  simp only [Prod.mk.injEq] at hFacts
  obtain ⟨hTarget, hFirst, hSecond⟩ := hFacts
  have hSound : s.Sound := (Session.Reached.start hFresh).inv.sound
  refine ⟨s, _, hFresh, rfl, ?_⟩
  rcases blames_exact hSound
    (rfl : ofCall ⟨⟨"mv", ["documents/notes.txt", "documents/notes.txt", "/tmp"], [], "mv"⟩, none, false⟩ .mv = _) with
    ⟨hShort, -⟩ | ⟨-, hNone, -⟩ | ⟨hRun, hTurns⟩
  · exact absurd hShort (by decide)
  · rw [Result.toOption_eq_some_iff] at hTarget
    cases hTarget.symm.trans hNone
  · obtain ⟨⟨hHere, -⟩, hNext⟩ := List.forall_mem_cons.mp hTurns
    obtain ⟨⟨hThen, -⟩, -⟩ := List.forall_mem_cons.mp hNext
    have hThere : ¬Transfer.move.Blames s "documents/notes.txt" "/tmp" := fun hBlames => by
      cases (congrArg (Option.map Problem.text) hFirst).symm.trans ((hHere "documents/notes.txt").mpr ⟨hBlames, rfl⟩)
    have hGone := (hThen "documents/notes.txt").mp (congrArg (Option.map Problem.text) hSecond)
    refine ⟨hRun.trans ?_, hGone.1, hThere⟩
    have hTold : (Act.turns (Transfer.move.operation "/tmp") ["documents/notes.txt", "documents/notes.txt"] s).filterMap
        (Transfer.move.told "/tmp") =
        [⟨"mv: cannot stat 'documents/notes.txt': No such file or directory", .notFound⟩] := by
      rw [Act.turns, Act.turns, Act.turns, List.filterMap_cons, hFirst]
      dsimp only
      rw [List.filterMap_cons, hSecond]
      rfl
    rw [← hTold]
    rfl

/-- A file that is there is said to be missing, since the directory for it is. -/
theorem not_only_missing : ¬∀ (s : Session) (u : Utility) (call : Call) (k : Transfer), s.Sound →
    ofCall call u = some k → ∀ turn ∈ Act.turns (k.operation (call.args.getLast?.getD "")) call.args.dropLast s,
      (k.told (call.args.getLast?.getD "") turn).map Problem.text = some (Refusal.absence u.name turn.1) →
        turn.2.lookup (turn.2.resolve (some turn.1)) = none := by
  intro h
  have hFacts : (Session.fresh? "user" 0.0).map (fun s =>
      ((Transfer.move.told "missing/x" ("documents/notes.txt", s)).map Problem.text,
        (s.lookup (s.resolve (some "documents/notes.txt"))).isNone)) =
      some (some "mv: cannot stat 'documents/notes.txt': No such file or directory", false) := by
    decide +kernel
  obtain ⟨s, hFresh, hFacts⟩ := Option.map_eq_some_iff.mp hFacts
  obtain ⟨hTold, hThere⟩ := Prod.mk.inj hFacts
  have hSound : s.Sound := (Session.Reached.start hFresh).inv.sound
  have hNone := h s .mv ⟨⟨"mv", ["documents/notes.txt", "missing/x"], [], "mv"⟩, none, false⟩ .move hSound rfl
    ("documents/notes.txt", s) List.mem_cons_self hTold
  rw [hNone] at hThere
  cases hThere

end Transfer

end VirtualShell
