import VirtualShell.Proofs.Search.Hidden

/-!
# Files that cannot be read

Two sessions that differ in the content of a file, which their user cannot read, cannot be told from each
other by any operation.
-/
namespace VirtualShell
set_option autoImplicit false

namespace Session

open Update

/-- The sessions are the same but for the content of the file at a spot. -/
def SameBut (w : Spot) (s t : Session) : Prop := ∃ root, t = { s with root := root } ∧ Node.SameBut w s.root root

theorem SameBut.follow {w : Spot} {s t : Session} (h : s.SameBut w t) (source final : String) :
    (s.follow source final).SameBut w (t.follow source final) := by
  obtain ⟨root, rfl, hRoot⟩ := h
  unfold Session.follow
  dsimp only
  split
  · exact ⟨root, rfl, hRoot⟩
  · exact ⟨root, rfl, hRoot⟩

theorem SameBut.stepOut {w : Spot} {s t : Session} (h : s.SameBut w t) (path : String) :
    (s.stepOut path).SameBut w (t.stepOut path) := by
  obtain ⟨root, rfl, hRoot⟩ := h
  unfold Session.stepOut
  dsimp only
  split
  · exact ⟨root, rfl, hRoot⟩
  · exact ⟨root, rfl, hRoot⟩

variable {s : Session} {w : Spot} {text : String} {path : PathArg}

theorem sameBut_refill (text : String) (w : Spot) (s : Session) : s.SameBut w (s.refill text w) :=
  ⟨_, rfl, .refill text w s.root⟩

theorem sameBut_modifyInfo {g : Info → Info} (hName : ∀ i : Info, (g i).name = i.name) (target : String) :
    (s.modifyAt target (Node.mapInfo g)).SameBut w ((s.refill text w).modifyAt target (Node.mapInfo g)) := by
  have hKeep : Node.KeepsName (Node.mapInfo g) := by
    intro n
    rw [Node.name, Node.info_mapInfo, hName, Node.name]
  exact ⟨_, rfl, (Node.SameBut.refill text w s.root).modify hKeep (Node.mapInfo_refill g)⟩

theorem sameBut_modifyAll {g : Info → Info} (hName : ∀ i : Info, (g i).name = i.name) (target : String) :
    (s.modifyAt target (Node.mapAll g)).SameBut w ((s.refill text w).modifyAt target (Node.mapAll g)) :=
  ⟨_, rfl, (Node.SameBut.refill text w s.root).modify (Node.keepsName_mapAll hName) (Node.mapAll_refill hName)⟩

theorem sameBut_addEntry (hOrder : s.root.Everywhere Node.Ordered) (directory : String) (e : Node) :
    (s.addEntry directory e).SameBut w ((s.refill text w).addEntry directory e) :=
  ⟨_, rfl, ((Node.SameBut.refill text w s.root).put hOrder).of_without⟩

theorem sameBut_removeEntry (directory name : String) :
    (s.removeEntry directory name).SameBut (w.without (Path.split directory ++ [name]))
      ((s.refill text w).removeEntry directory name) :=
  ⟨_, rfl, (Node.SameBut.refill text w s.root).drop⟩

theorem sameBut_overwrite {target old new : String} (h : w.follow (Path.split target) ≠ some [] → new = old) :
    (s.overwrite target old).SameBut w ((s.refill text w).overwrite target new) :=
  ⟨_, rfl, (Node.SameBut.refill text w s.root).overwrite h⟩

abbrev Echo (w : Spot) (a : String) (s : Session) (b : String) (t : Session) : Prop := b = a ∧ s.SameBut w t

section

variable (hOrder : s.root.Everywhere Node.Ordered)

theorem changeDirectory_twins : Twins s (s.refill text w) (Echo w) (changeDirectory path) (changeDirectory path) := by
  unfold changeDirectory
  refine twins_session_bind ?_
  simp only [resolve_refill, reachDirectory_refill]
  refine twins_bind_map fun n _ => ?_
  rw [subject_refill, Subject.may_refill]
  refine twins_bind_same fun may _ => twins_ite_error fun _ => ?_
  exact twins_write ⟨rfl, _, rfl, .refill text w s.root⟩

include hOrder in
theorem createFile_twins (content : String) :
    Twins s (s.refill text w) (Echo w) (createFile path content) (createFile path content) := by
  unfold createFile
  refine twins_session_bind (twins_bind_same fun target _ => ?_)
  rw [reachDirectory_refill]
  refine twins_bind_map fun parent _ => ?_
  simp only [Node.child?_refill]
  cases hChild : parent.child? (Path.baseName target) with
  | none =>
    simp only [Option.map_none, requireModifiable_refill]
    exact twins_bind_same fun _ _ => twins_write ⟨rfl, sameBut_addEntry hOrder _ _⟩
  | some e =>
    cases e with
    | dir i es =>
      simp only [Option.map_some, Node.refill_dir]
      exact twins_error _
    | file i c =>
      rw [Option.map_some, Node.refill_file, subject_refill]
      dsimp only
      rw [← Node.refill_file, Subject.may_refill]
      refine twins_bind_same fun may _ => twins_ite_error fun _ => ?_
      exact twins_write ⟨rfl, sameBut_modifyInfo (g := fun i => { i with modified := s.now }) (fun _ => rfl) target⟩

include hOrder in
theorem createDirectory_twins (parents : Bool) :
    Twins s (s.refill text w) (Echo w) (createDirectory path parents) (createDirectory path parents) := by
  unfold createDirectory
  refine twins_session_bind (twins_bind_same fun target _ => ?_)
  refine twins_bind planDirectories_refill fun plan plan' _ hPlan => ?_
  obtain ⟨v, rfl⟩ := hPlan
  cases plan with
  | present => exact twins_pure ⟨rfl, sameBut_refill text w s⟩
  | missing place n parts =>
    cases parts with
    | nil => exact twins_pure ⟨rfl, sameBut_refill text w s⟩
    | cons p ps =>
      simp only [DirectoryPlan.refill, requireModifiable_refill, newChain_refill]
      exact twins_bind_same fun _ _ => twins_write ⟨rfl, sameBut_addEntry hOrder _ _⟩

include hOrder in
theorem writeFile_twins (content : String) (append : Bool) :
    Twins s (s.refill text w) (Echo w) (writeFile path content append) (writeFile path content append) := by
  unfold writeFile
  refine twins_session_bind (twins_bind_same fun target hTarget => ?_)
  obtain ⟨-, hSplit⟩ := split_of_requireWritePath hTarget
  rw [reachDirectory_refill]
  refine twins_bind_map fun parent _ => ?_
  simp only [Node.child?_refill]
  cases hChild : parent.child? (Path.baseName target) with
  | none =>
    simp only [Option.map_none, requireModifiable_refill]
    exact twins_bind_same fun _ _ => twins_write ⟨rfl, sameBut_addEntry hOrder _ _⟩
  | some e =>
    cases e with
    | dir i es =>
      simp only [Option.map_some, Node.refill_dir]
      exact twins_error _
    | file i c =>
      rw [Option.map_some, Node.refill_file, subject_refill]
      dsimp only
      rw [← Node.refill_file, Subject.may_refill]
      refine twins_bind_same fun may _ => twins_ite_error fun _ => ?_
      -- The text that stands there differs, and what is appended to it does, if this is the file.
      refine twins_write ⟨rfl, sameBut_overwrite fun hElsewhere => ?_⟩
      rw [hSplit, Spot.follow_append, Spot.follow_cons, Spot.follow_nil] at hElsewhere
      rw [if_neg hElsewhere]

theorem detach_twins (target : String) : Twins s (s.refill text w) (fun _ s _ t =>
      s.SameBut (w.without (Path.split (Path.parentOf target) ++ [Path.baseName target])) t)
    (detach target) (detach target) := by
  unfold detach
  refine twins_session_bind ?_
  dsimp only
  rw [entry_refill]
  cases (s.lookup (Path.parentOf target)).bind (·.child? (Path.baseName target)) with
  | none => exact twins_error _
  | some e => exact .answer rfl rfl ((sameBut_removeEntry _ _).stepOut target)

theorem remove_twins (hCwd : s.Rooted) (recursive : Bool) :
    Twins s (s.refill text w) (Echo (w.without (Path.split (s.resolve path)))) (remove path recursive)
      (remove path recursive) := by
  unfold remove
  refine twins_session_bind ?_
  simp only [resolve_refill, reach_refill, parentNode_refill]
  refine twins_error_ite fun hRoot => twins_bind_map fun n _ => twins_bind_map fun parent _ => ?_
  simp only [Node.isDir_refill, requireModifiable_refill]
  refine twins_error_ite fun _ => twins_bind_same fun _ _ => ?_
  have hRemovable : (s.refill text w).requireRemovable
        (if n.isDir then (n.refill text (w.follow (Path.split (s.resolve path)))).walk (s.resolve path) else []) =
      s.requireRemovable (if n.isDir then n.walk (s.resolve path) else []) := by
    split
    · exact requireRemovable_refill (Node.walk_refill _ _ _ _)
    · rfl
  rw [hRemovable, hCwd.split_resolve (by simpa using hRoot)]
  refine twins_bind_same fun _ _ => twins_return (detach_twins (s.resolve path)) ?_
  exact fun _ _ _ _ h => ⟨rfl, h⟩

theorem removeDirectory_twins (hCwd : s.Rooted) :
    Twins s (s.refill text w) (Echo (w.without (Path.split (s.resolve path)))) (removeDirectory path)
      (removeDirectory path) := by
  unfold removeDirectory
  refine twins_session_bind ?_
  simp only [resolve_refill, reach_refill, parentNode_refill]
  refine twins_error_ite fun hRoot => twins_bind_map fun n _ => ?_
  simp only [Node.isDir_refill, Node.entries_refill, List.isEmpty_map]
  refine twins_error_ite fun _ => twins_error_ite fun _ => twins_bind_map fun parent _ => ?_
  rw [requireModifiable_refill, hCwd.split_resolve (by simpa using hRoot)]
  refine twins_bind_same fun _ _ => twins_return (detach_twins (s.resolve path)) ?_
  exact fun _ _ _ _ h => ⟨rfl, h⟩

theorem changeMode_twins (mode : String) :
    Twins s (s.refill text w) (Echo w) (changeMode path mode) (changeMode path mode) := by
  unfold changeMode
  refine twins_session_bind ?_
  simp only [resolve_refill, reach_refill]
  refine twins_bind_map fun n _ => ?_
  simp only [Node.info_refill, subject_refill]
  refine twins_ite_error fun _ => twins_bind_same fun permissions _ => ?_
  exact twins_write ⟨rfl, sameBut_modifyInfo (g := fun i => { i with permissions := permissions }) (fun _ => rfl) _⟩

theorem mayReown_refill {u : Subject} {owners : OwnerSpec} {xs ys : List (String × Node)}
    (h : List.Forall₂ (Node.Refilled text) xs ys) :
    ((ys.map Prod.snd).all fun m => mayReown u owners m.info) =
      (xs.map Prod.snd).all fun m => mayReown u owners m.info := by
  induction h with
  | nil => rfl
  | @cons x y xs ys hHead _ ih =>
    obtain ⟨-, v, hNode⟩ := hHead
    rw [List.map_cons, List.map_cons, List.all_cons, List.all_cons, hNode, Node.info_refill, ih]

theorem changeOwner_twins (spec : String) (recursive : Bool) :
    Twins s (s.refill text w) (Echo w) (changeOwner path spec recursive) (changeOwner path spec recursive) := by
  unfold changeOwner
  refine twins_session_bind ?_
  refine twins_error_ite fun _ => twins_error_ite fun _ => twins_error_ite fun _ => ?_
  dsimp only
  rw [resolve_refill, reach_refill]
  refine twins_bind_map fun n _ => ?_
  cases recursive with
  | true =>
    simp only [if_true, subject_refill, mayReown_refill (Node.walk_refill text _ n _)]
    exact twins_ite_error fun _ => twins_write ⟨rfl, sameBut_modifyAll (g := OwnerSpec.applyTo _) (fun _ => rfl) _⟩
  | false =>
    simp only [Bool.false_eq_true, if_false, subject_refill, List.all_cons, Node.info_refill, List.all_nil]
    exact twins_ite_error fun _ => twins_write ⟨rfl, sameBut_modifyInfo (g := OwnerSpec.applyTo _) (fun _ => rfl) _⟩

def spotOnceMoved (s : Session) (source dest : PathArg) (w : Spot) : Spot :=
  match s.landing source dest with
  | [q] => w.moved (Path.split (s.resolve source)) q
  | _ => w

include hOrder in
theorem sameBut_moveEntry (place old directory new : String) (n : Node) :
    ((s.removeEntry place old).addEntry directory (n.rename new)).SameBut
      (w.moved (Path.split place ++ [old]) (Path.split directory ++ [new]))
      (((s.refill text w).removeEntry place old).addEntry directory
        ((n.refill text (w.follow (Path.split place ++ [old]))).rename new)) := by
  have hMoved := Node.sameBut_moved hOrder (n.rename new) text old w (Path.split place) (Path.split directory) s.now
  rw [Node.name_rename] at hMoved
  rw [Node.rename_refill]
  exact ⟨_, rfl, hMoved⟩

include hOrder in
theorem move_twins (hCwd : s.Rooted) (source dest : PathArg) :
    Twins s (s.refill text w) (Echo (s.spotOnceMoved source dest w)) (move source dest) (move source dest) := by
  unfold move
  refine twins_session_bind ?_
  simp only [resolve_refill, reach_refill, parentNode_refill, reachDirectory_refill]
  refine twins_error_ite fun hRoot => twins_bind_map fun n hn => twins_error_ite fun _ => ?_
  rw [destination_refill]
  refine twins_bind_same fun ⟨directory, name⟩ hDest => ?_
  have hLanding := landing_eq hn hDest
  dsimp only
  by_cases hSame : Path.join directory name == s.resolve source
  · rw [if_pos hSame, if_pos hSame]
    rw [if_pos hSame] at hLanding
    refine twins_pure ⟨rfl, ?_⟩
    rw [spotOnceMoved, hLanding]
    exact sameBut_refill text w s
  · rw [if_neg hSame, if_neg hSame]
    rw [if_neg hSame] at hLanding
    refine twins_error_ite fun _ => twins_error_ite fun _ => twins_bind_map fun parent _ => ?_
    refine twins_bind_map fun target _ => ?_
    simp only [requireModifiable_refill, isOccupied_refill, Node.child?_refill, Node.name_refill, Option.isNone_map]
    refine twins_bind_same fun _ _ => twins_bind_same fun _ _ => ?_
    refine twins_error_ite fun _ => twins_error_ite fun _ => ?_
    refine .answer rfl rfl ⟨rfl, SameBut.follow ?_ _ _⟩
    -- The node is taken out by its name, which is the last part of the path that led to it.
    have hSplit := hCwd.split_resolve (by simpa using hRoot)
    have hLookup : s.root.get? (Path.split (s.resolve source)) = some n := lookup_of_reach hn
    rw [hSplit] at hLookup
    have hName := Node.name_of_get?_concat hLookup
    rw [spotOnceMoved, hLanding]
    dsimp only
    rw [hSplit, ← hName]
    exact sameBut_moveEntry hOrder _ _ _ _ _

theorem copy_twins {ps : List String} (h : s.Unreadable ps) (hOrder : s.root.Everywhere Node.Ordered)
    (source dest : PathArg) (recursive : Bool) :
    Twins s (s.refill text (some ps)) (Echo (some ps)) (copy source dest recursive) (copy source dest recursive) := by
  unfold copy
  refine twins_session_bind ?_
  simp only [resolve_refill, reach_refill, reachDirectory_refill]
  refine twins_bind_map fun n hn => ?_
  rw [Node.isDir_refill]
  refine twins_error_ite fun _ => ?_
  rw [requireReadable_refill (Node.walk_refill _ _ _ _)]
  refine twins_bind_same fun _ hReadable => ?_
  have hDestination : (s.refill text (some ps)).destination n dest = s.destination n dest :=
    destination_refill text (some ps) none s n dest
  rw [h.follow_eq_none hOrder hn hReadable, Node.refill_none, hDestination]
  refine twins_bind_same fun ⟨directory, name⟩ _ => ?_
  dsimp only
  refine twins_error_ite fun _ => twins_error_ite fun _ => twins_error_ite fun _ => twins_bind_map fun target _ => ?_
  simp only [Node.child?_refill, requireModifiable_refill]
  cases target.child? name with
  | none => exact twins_bind_same fun _ _ => twins_write ⟨rfl, sameBut_addEntry hOrder _ _⟩
  | some e =>
    simp only [Option.map_some, Node.isDir_refill, subject_refill, Subject.may_refill]
    refine twins_error_ite fun _ => twins_bind_same fun may _ => twins_ite_error fun _ => ?_
    exact twins_write ⟨rfl, sameBut_overwrite fun _ => rfl⟩

theorem readFile_refill (h : s.subject.Hides w s.root) : (s.refill text w).readFile path = s.readFile path := by
  rw [readFile, readFile, resolve_refill, reach_refill]
  cases hReach : s.reach (s.resolve path) path with
  | error fault => rfl
  | ok n =>
    have hHides := h.follow hReach
    cases n with
    | dir i es =>
      simp only [Except.map, Node.refill_dir]
      rfl
    | file i c =>
      simp only [Except.map, Node.refill_file, Result.ok_bind]
      rw [← Node.refill_file, subject_refill, Subject.may_refill]
      cases hMay : s.subject.may .read (.file i c) with
      | error fault => rfl
      | ok may =>
        cases may with
        | false => rfl
        | true =>
          have hElsewhere : w.follow (Path.split (s.resolve path)) ≠ some [] := fun hHere => hHides [] hHere hMay
          rw [if_neg hElsewhere]

theorem look_twins {α : Type} {see : Session → Except Fault α} {g : α → α}
    (h : see (s.refill text w) = (see s).map g) :
    Twins s (s.refill text w) (fun a s' b t' => b = g a ∧ s'.SameBut w t') (look see) (look see) :=
  twins_look h fun _ => ⟨rfl, sameBut_refill text w s⟩

theorem read_twins (h : s.subject.Hides w s.root) :
    Twins s (s.refill text w) (Echo w) (look (·.readFile path)) (look (·.readFile path)) := by
  refine look_twins (g := id) ?_
  rw [readFile_refill h]
  cases s.readFile path with
  | error fault => rfl
  | ok content => rfl

section

variable (hAdmin : s.subject.isAdmin = false)

include hAdmin in
theorem requireAdmin_error (command : String) : s.requireAdmin command = refuse (.adminOnly command) := by
  rw [requireAdmin, hAdmin]
  rfl

include hAdmin in
theorem deletable_error (username : String) (removeHome : Bool) :
    s.deletable username removeHome = refuse (.adminOnly "userdel") := by
  rw [deletable, requireAdmin_error hAdmin]
  rfl

include hAdmin in
/-- What only the administrator may do gives nobody else an answer. -/
theorem twins_adminOnly {α : Type} (command : String) (f : Session → Unit → Update α) :
    Twins s (s.refill text w) (fun _ _ _ _ => False) (session >>= fun s => liftM (s.requireAdmin command) >>= f s)
      (session >>= fun s => liftM (s.requireAdmin command) >>= f s) := by
  have hAdmin' : (s.refill text w).subject.isAdmin = false := hAdmin
  apply twins_session_bind
  rw [requireAdmin_error hAdmin, requireAdmin_error hAdmin']
  exact .fault _ rfl rfl

include hAdmin in
theorem deleteUser_twins (username : String) (removeHome : Bool) :
    Twins s (s.refill text w) (fun _ _ _ _ => False) (deleteUser username removeHome)
      (deleteUser username removeHome) := by
  have hAdmin' : (s.refill text w).subject.isAdmin = false := hAdmin
  unfold deleteUser
  apply twins_session_bind
  rw [deletable_error hAdmin, deletable_error hAdmin']
  exact .fault _ rfl rfl

end

theorem switchUser_twins (username : String) :
    Twins s (s.refill text w) (Echo w) (switchUser username) (switchUser username) := by
  unfold switchUser
  refine twins_session_bind (twins_error_ite fun _ => twins_error_ite fun _ => ?_)
  exact twins_write ⟨rfl, _, rfl, .refill text w s.root⟩

end

end Session

/-- The answer with other content in the file; entries are listed by name. -/
def Answer.refill (text : String) (w : Spot) : Answer → Answer
  | .node n => .node (n.refill text w)
  | .nodes ns => .nodes (ns.map fun e => e.refill text (Spot.enter e.name w))
  | answer => answer

namespace Session

open Update

variable {s : Session}

def spotIn (s : Session) (o : Operation) (w : Spot) : Spot :=
  match o with
  | .stat path | .list path _ => w.follow (Path.split (s.resolve path))
  | _ => w

def spotAfter (s : Session) (o : Operation) (w : Spot) : Spot :=
  match o with
  | .remove path _ | .removeDirectory path => w.without (Path.split (s.resolve path))
  | .move source dest => s.spotOnceMoved source dest w
  | _ => w

theorem steps_twins {ps : List String} (h : s.Unreadable ps) (hOrder : s.root.Everywhere Node.Ordered)
    (hCwd : s.Rooted) (text : String) (o : Operation) :
    Twins s (s.refill text (some ps))
      (fun a s' b t' => b = a.refill text (s.spotIn o (some ps)) ∧ s'.SameBut (s.spotAfter o (some ps)) t')
      (steps o) (steps o) := by
  have hEcho : ∀ {w : Spot} (a s' b t'), Echo w a s' b t' →
      Answer.text b = (Answer.text a).refill text (s.spotIn o (some ps)) ∧ s'.SameBut w t' := by
    rintro w a s' b t' ⟨rfl, hSame⟩
    exact ⟨rfl, hSame⟩
  have hAdmin := h.not_admin
  cases o with
  | stat path =>
    refine twins_map (look_twins (stat_refill text (some ps) s path)) ?_
    rintro n s' n' t' ⟨rfl, hSame⟩
    exact ⟨rfl, hSame⟩
  | list path hidden =>
    refine twins_map (look_twins (list_refill text (some ps) s path hidden)) ?_
    rintro ns s' ns' t' ⟨rfl, hSame⟩
    exact ⟨rfl, hSame⟩
  | changeDirectory path => exact twins_map changeDirectory_twins hEcho
  | read path => exact twins_map (read_twins (h.hides hOrder)) hEcho
  | createFile path content => exact twins_map (createFile_twins hOrder content) hEcho
  | createDirectory path parents => exact twins_map (createDirectory_twins hOrder parents) hEcho
  | write path content append => exact twins_map (writeFile_twins hOrder content append) hEcho
  | remove path recursive => exact twins_map (remove_twins hCwd recursive) hEcho
  | removeDirectory path => exact twins_map (removeDirectory_twins hCwd) hEcho
  | move source dest => exact twins_map (move_twins hOrder hCwd source dest) hEcho
  | copy source dest recursive => exact twins_map (copy_twins h hOrder source dest recursive) hEcho
  | changeMode path mode => exact twins_map (changeMode_twins mode) hEcho
  | changeOwner path spec recursive => exact twins_map (changeOwner_twins spec recursive) hEcho
  | switchUser username => exact twins_map (switchUser_twins username) hEcho
  | addGroup name => exact twins_map (twins_adminOnly hAdmin "groupadd" _) fun _ _ _ _ => False.elim
  | addUser username groups primary createHome =>
    exact twins_map (twins_adminOnly hAdmin "useradd" _) fun _ _ _ _ => False.elim
  | changeGroups username groups append =>
    exact twins_map (twins_adminOnly hAdmin "usermod" _) fun _ _ _ _ => False.elim
  | deleteUser username removeHome =>
    exact twins_map (deleteUser_twins hAdmin username removeHome) fun _ _ _ _ => False.elim

/-- With other content at the spot an operation answers the same up to that content, and it leaves a session
that is the same up to that content. One that fails leaves both sessions as they were. -/
def Echoes (s : Session) (text : String) (w : Spot) (o : Operation) : Prop :=
  ((s.refill text w).apply o).1 = (s.apply o).1.map (Answer.refill text (s.spotIn o w)) ∧
    match (s.apply o).1 with
    | .ok _ => (s.apply o).2.SameBut (s.spotAfter o w) ((s.refill text w).apply o).2
    | .error _ => (s.apply o).2 = s ∧ ((s.refill text w).apply o).2 = s.refill text w

theorem echoes {ps : List String} (h : s.Unreadable ps) (hOrder : s.root.Everywhere Node.Ordered) (hCwd : s.Rooted)
    (text : String) (o : Operation) : s.Echoes text (some ps) o := by
  cases steps_twins h hOrder hCwd text o with
  | @answer a b s' t' hRun hRun' hPost =>
    obtain ⟨hAnswer, hSame⟩ := hPost
    have hApply : s.apply o = (.ok a, s') := hRun
    have hApply' : (s.refill text (some ps)).apply o = (.ok b, t') := hRun'
    rw [Echoes, hApply, hApply', hAnswer]
    exact ⟨rfl, hSame⟩
  | fault fault hRun hRun' =>
    have hApply : s.apply o = (.error fault, s) := hRun
    have hApply' : (s.refill text (some ps)).apply o = (.error fault, s.refill text (some ps)) := hRun'
    rw [Echoes, hApply, hApply']
    exact ⟨rfl, rfl, rfl⟩

/-- No operation and no search tells the content of a file that the acting user cannot read from another. The
tree and the working directory are to be as they are in every session that is reached. -/
theorem Unreadable.confidential {ps : List String} (h : s.Unreadable ps) (hOrder : s.root.Everywhere Node.Ordered)
    (hCwd : Path.isCanonical s.cwd = true) (text : String) :
    (∀ o, s.Echoes text (some ps) o) ∧
      (∀ start f, (s.refill text (some ps)).find start f = s.find start f) ∧
      ∀ pattern paths options,
        (s.refill text (some ps)).grep pattern paths options = s.grep pattern paths options := by
  have hHides := h.hides hOrder
  exact ⟨fun o => echoes h hOrder (rooted_of_isCanonical hCwd) text o, fun start f => find_refill hHides start f,
    fun pattern paths options => grep_refill hHides pattern paths options⟩

/-- The passwords are for the administrator. -/
theorem passwords_confidential : ∃ s, Session.fresh? "user" 0.0 = some s ∧ s.Unreadable ["etc", "shadow"] ∧
    s.root.Everywhere Node.Ordered ∧ Path.isCanonical s.cwd = true ∧
      (∀ o, s.Echoes "root::0:0:99999:7:::" (some ["etc", "shadow"]) o) ∧
      (∀ start f, (s.refill "root::0:0:99999:7:::" (some ["etc", "shadow"])).find start f = s.find start f) ∧
      ∀ pattern paths options,
        (s.refill "root::0:0:99999:7:::" (some ["etc", "shadow"])).grep pattern paths options =
          s.grep pattern paths options := by
  have hSecret : (Session.fresh? "user" 0.0).map (fun s => (s.root.get? ["etc", "shadow"]).map fun n =>
      (n.isDir, (s.subject.may .read n).toOption)) = some (some (false, some false)) := by
    decide +kernel
  obtain ⟨s, hFresh, hSecret⟩ := Option.map_eq_some_iff.mp hSecret
  obtain ⟨n, hn, hMay⟩ := Option.map_eq_some_iff.mp hSecret
  obtain ⟨hFile, hMay⟩ := Prod.mk.inj hMay
  have hClosed : s.Unreadable ["etc", "shadow"] := by
    cases n with
    | dir i es => cases hFile
    | file i c =>
      refine ⟨i, c, hn, .inl fun hRead => ?_⟩
      rw [hRead] at hMay
      cases hMay
  have hTree := (Reached.start hFresh).inv.sound.1
  have hOrder := hTree.wellFormed.everywhere_ordered
  exact ⟨s, hFresh, hClosed, hOrder, hTree.canonical, hClosed.confidential hOrder hTree.canonical _⟩

/-- Of a session that is reached nothing else is asked. -/
theorem Reached.keeps_secret {marks : List Mark} {ps : List String} (h : Reached marks s) (hClosed : s.Unreadable ps)
    (text : String) : (∀ o, s.Echoes text (some ps) o) ∧
      (∀ start f, (s.refill text (some ps)).find start f = s.find start f) ∧
      ∀ pattern paths options,
        (s.refill text (some ps)).grep pattern paths options = s.grep pattern paths options := by
  have hTree := h.inv.sound.tree
  have hOrder := hTree.wellFormed.everywhere_ordered
  exact ⟨echoes hClosed hOrder (rooted_of_isCanonical hTree.canonical) text, find_refill (hClosed.hides hOrder),
    grep_refill (hClosed.hides hOrder)⟩

end Session

end VirtualShell
