import VirtualShell.Proofs.Session.Outcome
import VirtualShell.Session.Operation

/-!
# What the operations do

For every operation, all that it has found when it succeeds and the session it leaves then. None of
them leaves anything behind when it fails, so that each statement is a judgement `Ends`.
-/
namespace VirtualShell.Session
set_option autoImplicit false

open Update

variable (s : Session) (path : PathArg)

theorem changeDirectory_ends : (changeDirectory path).Ends s fun target s' =>
    target = s.resolve (orHome path) ∧
      ∃ n, s.reachDirectory target path = .ok n ∧ s.subject.may .execute n = .ok true ∧
        s' = { s with cwd := target } := by
  unfold changeDirectory
  refine ends_session_bind (ends_lift_bind fun n hn => ends_lift_bind fun may hMay => ?_)
  refine ends_ite_error fun hTrue => ends_write_bind (returns_pure ?_)
  subst hTrue
  exact ⟨rfl, n, hn, hMay, rfl⟩

theorem createFile_ends (content : String) : (createFile path content).Ends s fun target s' =>
    s.requireWritePath path = .ok target ∧ ∃ parent, s.reachDirectory (Path.parentOf target) path = .ok parent ∧
      ((∃ i c, parent.child? (Path.baseName target) = some (.file i c) ∧
          (s.subject.may .write (.file i c) = .ok true ∨ s.subject.owns i = true) ∧
          s' = s.modifyAt target (Node.touch s.now)) ∨
        (parent.child? (Path.baseName target) = none ∧
          s.requireModifiable parent (.touch path.text) = .ok () ∧
          s' = s.addEntry (Path.parentOf target) (s.newFile (Path.baseName target) content))) := by
  unfold createFile
  refine ends_session_bind (ends_lift_bind fun target hTarget => ends_lift_bind fun parent hParent => ?_)
  dsimp only
  split
  · exact ends_error _
  · rename_i i c hChild
    refine ends_lift_bind fun may hMay => ends_ite_error fun hTrue => ends_write_bind (returns_pure ?_)
    refine ⟨hTarget, parent, hParent, .inl ⟨i, c, hChild, ?_, rfl⟩⟩
    rcases (Bool.or_eq_true _ _).mp hTrue with h | h
    · exact .inl (h ▸ hMay)
    · exact .inr h
  · rename_i hChild
    refine ends_lift_bind fun _ hModify => ends_write_bind (returns_pure ?_)
    exact ⟨hTarget, parent, hParent, .inr ⟨hChild, hModify, rfl⟩⟩

theorem createDirectory_ends (parents : Bool) : (createDirectory path parents).Ends s fun target s' =>
    s.requireWritePath path = .ok target ∧
      ∃ plan, planDirectories s.subject path.text parents [] s.root (Path.split target) = .ok plan ∧
        match plan with
        | .present | .missing _ _ [] => s' = s
        | .missing place n (p :: ps) =>
          s.requireModifiable n (.makeDirectory path.text) = .ok () ∧
            s' = s.addEntry (Path.ofParts place) (s.newChain p ps) := by
  unfold createDirectory
  refine ends_session_bind (ends_lift_bind fun target hTarget => ends_lift_bind fun plan hPlan => ?_)
  split
  · exact ends_pure ⟨hTarget, _, hPlan, rfl⟩
  · exact ends_pure ⟨hTarget, _, hPlan, rfl⟩
  · exact ends_lift_bind fun _ hModify => ends_write_bind (returns_pure ⟨hTarget, _, hPlan, hModify, rfl⟩)

theorem writeFile_ends (content : String) (append : Bool) :
    (writeFile path content append).Ends s fun target s' =>
    s.requireWritePath path = .ok target ∧ ∃ parent, s.reachDirectory (Path.parentOf target) path = .ok parent ∧
      ((∃ i c, parent.child? (Path.baseName target) = some (.file i c) ∧
          s.subject.may .write (.file i c) = .ok true ∧
          s' = s.overwrite target (if append then c ++ content else content)) ∨
        (parent.child? (Path.baseName target) = none ∧
          s.requireModifiable parent (.reach path.text) = .ok () ∧
          s' = s.addEntry (Path.parentOf target) (s.newFile (Path.baseName target) content))) := by
  unfold writeFile
  refine ends_session_bind (ends_lift_bind fun target hTarget => ends_lift_bind fun parent hParent => ?_)
  dsimp only
  split
  · exact ends_error _
  · rename_i i c hChild
    refine ends_lift_bind fun may hMay => ends_ite_error fun hTrue => ends_write_bind (returns_pure ?_)
    subst hTrue
    exact ⟨hTarget, parent, hParent, .inl ⟨i, c, hChild, hMay, rfl⟩⟩
  · rename_i hChild
    refine ends_lift_bind fun _ hModify => ends_write_bind (returns_pure ?_)
    exact ⟨hTarget, parent, hParent, .inr ⟨hChild, hModify, rfl⟩⟩

def detached (s : Session) (target : String) : Session :=
  (s.removeEntry (Path.parentOf target) (Path.baseName target)).stepOut target

theorem detach_returns {s : Session} {target : String} {e : Node}
    (h : (s.lookup (Path.parentOf target)).bind (·.child? (Path.baseName target)) = some e) :
    (detach target).Returns s fun _ s' => s' = s.detached target := by
  unfold detach
  apply returns_session_bind
  dsimp only
  rw [h]
  exact returns_write_bind (returns_write rfl)

theorem detach_ends (target : String) : (detach target).Ends s fun _ s' =>
    (∃ e, (s.lookup (Path.parentOf target)).bind (·.child? (Path.baseName target)) = some e) ∧
      s' = s.detached target := by
  cases h : (s.lookup (Path.parentOf target)).bind (·.child? (Path.baseName target)) with
  | none =>
    unfold detach
    apply ends_session_bind
    dsimp only
    rw [h]
    exact ends_error _
  | some e =>
    obtain ⟨_, t, hRun, ht⟩ := detach_returns h
    exact Returns.ends ⟨_, t, hRun, ⟨e, rfl⟩, ht⟩

theorem remove_ends (recursive : Bool) : (remove path recursive).Ends s fun target s' =>
    target = s.resolve path ∧ target ≠ "/" ∧ ∃ n parent, s.reach target path = .ok n ∧
      s.parentNode target = .ok parent ∧ (n.isDir = true → recursive = true) ∧
      s.requireModifiable parent (.remove path.text) = .ok () ∧
      s.requireRemovable (if n.isDir then n.walk target else []) = .ok () ∧
      (∃ e, (s.lookup (Path.parentOf target)).bind (·.child? (Path.baseName target)) = some e) ∧
      s' = s.detached target := by
  unfold remove
  refine ends_session_bind (ends_error_ite fun hRoot => ?_)
  refine ends_lift_bind fun n hn => ends_lift_bind fun parent hParent => ends_error_ite fun hRecursive => ?_
  refine ends_lift_bind fun _ hModify => ends_lift_bind fun _ hRemove => ends_bind (detach_ends s _) ?_
  intro _ t ⟨hEntry, ht⟩
  refine returns_pure ⟨rfl, by simpa using hRoot, n, parent, hn, hParent, ?_, hModify, hRemove, hEntry, ht⟩
  intro hDir
  simpa [hDir] using hRecursive

theorem removeDirectory_ends : (removeDirectory path).Ends s fun target s' =>
    target = s.resolve path ∧ target ≠ "/" ∧ ∃ n parent, s.reach target path = .ok n ∧ n.isDir = true ∧
      n.entries = [] ∧ s.parentNode target = .ok parent ∧
      s.requireModifiable parent (.removeDirectory path.text) = .ok () ∧
      (∃ e, (s.lookup (Path.parentOf target)).bind (·.child? (Path.baseName target)) = some e) ∧
      s' = s.detached target := by
  unfold removeDirectory
  refine ends_session_bind (ends_error_ite fun hRoot => ends_lift_bind fun n hn => ?_)
  refine ends_error_ite fun hDir => ends_error_ite fun hEmpty => ?_
  refine ends_lift_bind fun parent hParent => ends_lift_bind fun _ hModify => ends_bind (detach_ends s _) ?_
  intro _ t ⟨hEntry, ht⟩
  exact returns_pure ⟨rfl, by simpa using hRoot, n, parent, hn, by simpa using hDir, by simpa using hEmpty,
    hParent, hModify, hEntry, ht⟩

def moved (s : Session) (source : String) (n : Node) (directory name : String) : Session :=
  ((s.removeEntry (Path.parentOf source) n.name).addEntry directory (n.rename name)).follow source
    (Path.join directory name)

theorem move_ends (source dest : PathArg) : (move source dest).Ends s fun final s' =>
    s.resolve source ≠ "/" ∧ ∃ n directory name, s.reach (s.resolve source) source = .ok n ∧
      Path.isWithin (s.resolve dest) (s.resolve source) = false ∧
      s.destination n dest = .ok (directory, name) ∧ final = Path.join directory name ∧
      ((final = s.resolve source ∧ s' = s) ∨
        (final ≠ s.resolve source ∧ Path.isWithin final (s.resolve source) = false ∧
          Path.hasUnsafe name = false ∧
          ∃ parent target, s.parentNode (s.resolve source) = .ok parent ∧
            s.reachDirectory directory dest = .ok target ∧
            s.requireModifiable parent (.move source.text) = .ok () ∧
            s.requireModifiable target (.moveTo source.text dest.text) = .ok () ∧
            isOccupied target name n = false ∧ s' = s.moved (s.resolve source) n directory name)) := by
  unfold move
  refine ends_session_bind (ends_error_ite fun hRoot => ends_lift_bind fun n hn => ?_)
  refine ends_error_ite fun hWithin => ends_lift_bind fun ⟨directory, name⟩ hDest => ?_
  have hRoot : s.resolve source ≠ "/" := by simpa using hRoot
  have hWithin : Path.isWithin (s.resolve dest) (s.resolve source) = false := by simpa using hWithin
  dsimp only
  split
  · rename_i hSame
    have hSame : Path.join directory name = s.resolve source := by simpa using hSame
    exact ends_pure ⟨hRoot, n, directory, name, hn, hWithin, hDest, hSame.symm, .inl ⟨rfl, rfl⟩⟩
  · rename_i hSame
    refine ends_error_ite fun hInside => ends_error_ite fun hSafe => ?_
    refine ends_lift_bind fun parent hParent => ends_lift_bind fun target hTarget => ?_
    refine ends_lift_bind fun _ hTake => ends_lift_bind fun _ hPut => ends_error_ite fun hFree => ?_
    refine ends_error_ite fun _ => ?_
    refine ends_write_bind (returns_write_bind (returns_write_bind (returns_pure ?_)))
    exact ⟨hRoot, n, directory, name, hn, hWithin, hDest, rfl, .inr ⟨by simpa using hSame,
      by simpa using hInside, by simpa using hSafe, parent, target, hParent, hTarget, hTake, hPut,
      by simpa using hFree, rfl⟩⟩

theorem copy_ends (source dest : PathArg) (recursive : Bool) : (copy source dest recursive).Ends s fun final s' =>
    ∃ n directory name, s.reach (s.resolve source) source = .ok n ∧ (n.isDir = true → recursive = true) ∧
      s.requireReadable (n.walk (s.resolve source)) = .ok () ∧ s.destination n dest = .ok (directory, name) ∧
      final = Path.join directory name ∧ (n.isDir = true → Path.isWithin final (s.resolve source) = false) ∧
      final ≠ s.resolve source ∧ Path.hasUnsafe name = false ∧
      ∃ target, s.reachDirectory directory dest = .ok target ∧
        ((∃ e, target.child? name = some e ∧ e.isDir = false ∧ n.isDir = false ∧
            s.subject.may .write e = .ok true ∧ s' = s.overwrite final n.content) ∨
          (target.child? name = none ∧ s.requireModifiable target (.create dest.text) = .ok () ∧
            s' = s.addEntry directory (s.cloned n name))) := by
  unfold copy
  refine ends_session_bind (ends_lift_bind fun n hn => ends_error_ite fun hRecursive => ?_)
  refine ends_lift_bind fun _ hRead => ends_lift_bind fun ⟨directory, name⟩ hDest => ?_
  refine ends_error_ite fun hInside => ends_error_ite fun hSame => ends_error_ite fun hSafe => ?_
  refine ends_lift_bind fun target hTarget => ?_
  have hRecursive : n.isDir = true → recursive = true := fun hDir => by simpa [hDir] using hRecursive
  have hInside : n.isDir = true → Path.isWithin (Path.join directory name) (s.resolve source) = false :=
    fun hDir => by simpa [hDir] using hInside
  have hSame : Path.join directory name ≠ s.resolve source := by simpa using hSame
  have hSafe : Path.hasUnsafe name = false := by simpa using hSafe
  split
  · rename_i e hChild
    refine ends_error_ite fun hFiles => ends_lift_bind fun may hMay => ?_
    refine ends_ite_error fun hTrue => ends_write_bind (returns_pure ?_)
    obtain ⟨hFile, hFile'⟩ : e.isDir = false ∧ n.isDir = false := by simpa using hFiles
    subst hTrue
    exact ⟨n, directory, name, hn, hRecursive, hRead, hDest, rfl, hInside, hSame, hSafe, target, hTarget,
      .inl ⟨e, hChild, hFile, hFile', hMay, rfl⟩⟩
  · rename_i hChild
    refine ends_lift_bind fun _ hModify => ends_write_bind (returns_pure ?_)
    exact ⟨n, directory, name, hn, hRecursive, hRead, hDest, rfl, hInside, hSame, hSafe, target, hTarget,
      .inr ⟨hChild, hModify, rfl⟩⟩

theorem changeMode_ends (mode : String) : (changeMode path mode).Ends s fun permissions s' =>
    ∃ n, s.reach (s.resolve path) path = .ok n ∧ s.subject.mayChange n.info = true ∧
      Mode.apply mode n.info.permissions = .ok permissions ∧
      s' = s.modifyAt (s.resolve path) (Node.mapInfo fun i => { i with permissions := permissions }) := by
  unfold changeMode
  refine ends_session_bind (ends_lift_bind fun n hn => ends_ite_error fun hMay => ?_)
  exact ends_lift_bind fun permissions hMode => ends_write_bind (returns_pure ⟨n, hn, hMay, hMode, rfl⟩)

theorem changeOwner_ends (spec : String) (recursive : Bool) :
    (changeOwner path spec recursive).Ends s fun target s' =>
    target = s.resolve path ∧ ((OwnerSpec.ofText spec).owner ≠ none ∨ (OwnerSpec.ofText spec).group ≠ none) ∧
      (∀ owner, (OwnerSpec.ofText spec).owner = some owner → s.accounts.contains owner = true) ∧
      (∀ group, (OwnerSpec.ofText spec).group = some group → s.groups.contains group = true) ∧
      ∃ n, s.reach target path = .ok n ∧
        (s.subject.isAdmin = true ∨ ∀ m ∈ if recursive then (n.walk target).map Prod.snd else [n],
          mayReown s.subject (OwnerSpec.ofText spec) m.info = true) ∧
        s' = s.modifyAt target (if recursive then Node.mapAll (OwnerSpec.applyTo (OwnerSpec.ofText spec))
          else Node.mapInfo (OwnerSpec.applyTo (OwnerSpec.ofText spec))) := by
  unfold changeOwner
  apply ends_session_bind
  dsimp only
  generalize OwnerSpec.ofText spec = owners
  refine ends_error_ite fun hSome => ends_error_ite fun hOwner => ends_error_ite fun hGroup => ?_
  refine ends_lift_bind fun n hn => ends_ite_error fun hMay => ends_write_bind (returns_pure ?_)
  refine ⟨rfl, ?_, ?_, ?_, n, hn, ?_, rfl⟩
  · by_cases hNone : owners.owner = none
    · exact .inr fun hNone' => hSome (by rw [hNone, hNone']; rfl)
    · exact .inl hNone
  · intro owner hEq
    simpa [hEq] using hOwner
  · intro group hEq
    simpa [hEq] using hGroup
  · simpa using hMay

end VirtualShell.Session
