import VirtualShell.Proofs.Session.Enrolment
import VirtualShell.Proofs.Tree.Refill

/-!
# Directories stay in order

Every operation leaves the entries of all directories in the order of their names, so that no two entries of a directory
share a name. Nothing else has to hold of the session for that: the accounts, the homes and the working directory may be
those of any snapshot.
-/
namespace VirtualShell.Session
set_option autoImplicit false

open Update

variable {s t : Session} {path : PathArg}

theorem ordered_of_empty {n : Node} (h : n.entries = []) : n.Everywhere Node.Ordered := by
  refine .intro ?_ fun e he => ?_
  · rw [Node.Ordered, h]
    exact List.Pairwise.nil
  · rw [h] at he
    cases he

theorem ordered_newChain (s : Session) (p : String) (ps : List String) :
    (s.newChain p ps).Everywhere Node.Ordered := by
  induction ps generalizing p with
  | nil => exact ordered_of_empty rfl
  | cons q qs ih =>
    refine .intro (List.pairwise_singleton _ _) fun e he => ?_
    rw [List.mem_singleton.mp he]
    exact ih q

section

variable (h : s.root.Everywhere Node.Ordered)

include h

theorem ordered_modifyAt {full : String} {f : Node → Node} (hf : Node.KeepsName f)
    (hKeep : ∀ m : Node, m.Everywhere Node.Ordered → (f m).Everywhere Node.Ordered) :
    (s.modifyAt full f).root.Everywhere Node.Ordered := Node.ordered_modify h hf hKeep _

theorem ordered_mapInfo {full : String} {g : Info → Info} (hName : ∀ i : Info, (g i).name = i.name) :
    (s.modifyAt full (Node.mapInfo g)).root.Everywhere Node.Ordered := by
  refine ordered_modifyAt h (fun m => ?_) fun m hm => Node.ordered_mapInfo hm g
  rw [Node.name, Node.info_mapInfo, hName, Node.name]

theorem ordered_overwrite {full text : String} : (s.overwrite full text).root.Everywhere Node.Ordered :=
  ordered_modifyAt h (fun _ => by simp) fun _ hm => Node.ordered_mapInfo (Node.ordered_setContent hm text) _

theorem ordered_addEntry {directory : String} {e : Node} (he : e.Everywhere Node.Ordered) :
    (s.addEntry directory e).root.Everywhere Node.Ordered := Node.ordered_put h he

theorem ordered_removeEntry {directory name : String} :
    (s.removeEntry directory name).root.Everywhere Node.Ordered := Node.ordered_drop h

theorem ordered_addFile {directory name text : String} :
    (s.addEntry directory (s.newFile name text)).root.Everywhere Node.Ordered :=
  ordered_addEntry h (ordered_of_empty rfl)

theorem ordered_detached (target : String) : (s.detached target).root.Everywhere Node.Ordered := by
  rw [detached, root_stepOut]
  exact ordered_removeEntry h

theorem ordered_addHome (username group : String) : (s.addHome username group).root.Everywhere Node.Ordered := by
  unfold addHome
  split
  · exact h
  · exact ordered_addEntry h (ordered_of_empty rfl)

theorem ordered_createFile (content : String) :
    (createFile path content).Ends s fun _ t => t.root.Everywhere Node.Ordered := by
  refine (createFile_ends s path content).mono ?_
  rintro _ _ ⟨-, parent, -, ⟨i, c, -, -, rfl⟩ | ⟨-, -, rfl⟩⟩
  · exact ordered_mapInfo h fun _ => rfl
  · exact ordered_addFile h

theorem ordered_createDirectory (parents : Bool) :
    (createDirectory path parents).Ends s fun _ t => t.root.Everywhere Node.Ordered := by
  refine (createDirectory_ends s path parents).mono ?_
  rintro _ t ⟨-, plan, -, ht⟩
  split at ht
  · rw [ht]
    exact h
  · rw [ht]
    exact h
  · rw [ht.2]
    exact ordered_addEntry h (ordered_newChain s _ _)

theorem ordered_writeFile (content : String) (append : Bool) :
    (writeFile path content append).Ends s fun _ t => t.root.Everywhere Node.Ordered := by
  refine (writeFile_ends s path content append).mono ?_
  rintro _ _ ⟨-, parent, -, ⟨i, c, -, -, rfl⟩ | ⟨-, -, rfl⟩⟩
  · exact ordered_overwrite h
  · exact ordered_addFile h

theorem ordered_move (source dest : PathArg) :
    (move source dest).Ends s fun _ t => t.root.Everywhere Node.Ordered := by
  refine (move_ends s source dest).mono ?_
  rintro _ _ ⟨-, n, directory, name, hn, -, -, -, ⟨-, rfl⟩ | ⟨-, -, -, parent, target, -, -, -, -, -, rfl⟩⟩
  · exact h
  · have hMoved : (n.rename name).Everywhere Node.Ordered := Node.ordered_mapInfo (h.get? (lookup_of_reach hn)) _
    rw [moved, root_follow]
    exact ordered_addEntry (ordered_removeEntry h) hMoved

theorem ordered_copy (source dest : PathArg) (recursive : Bool) :
    (copy source dest recursive).Ends s fun _ t => t.root.Everywhere Node.Ordered := by
  refine (copy_ends s source dest recursive).mono ?_
  rintro _ _ ⟨n, directory, name, hn, -, -, -, -, -, -, -, target, -, ⟨e, -, -, -, -, rfl⟩ | ⟨-, -, rfl⟩⟩
  · exact ordered_overwrite h
  · have hCopy := Node.ordered_mapAll (g := fun i => { i with owner := s.username, group := s.primaryGroup,
                                                              modified := s.now })
      (h.get? (lookup_of_reach hn)) fun _ => rfl
    exact ordered_addEntry h (Node.ordered_mapInfo hCopy _)

theorem ordered_changeOwner (spec : String) (recursive : Bool) :
    (changeOwner path spec recursive).Ends s fun _ t => t.root.Everywhere Node.Ordered := by
  refine (changeOwner_ends s path spec recursive).mono ?_
  rintro _ _ ⟨-, -, -, -, n, -, -, rfl⟩
  cases recursive with
  | false => exact ordered_mapInfo h fun _ => rfl
  | true =>
    exact ordered_modifyAt h (Node.keepsName_mapAll fun _ => rfl) fun _ hm => Node.ordered_mapAll hm fun _ => rfl

theorem ordered_addUser (username : String) (groups : List String) (primary : Option String) (createHome : Bool) :
    (addUser username groups primary createHome).Ends s fun _ t => t.root.Everywhere Node.Ordered := by
  refine (addUser_ends s username groups primary createHome).mono ?_
  rintro _ _ ⟨-, -, -, -, -, -, -, rfl⟩
  dsimp only
  split
  · apply ordered_addHome
    exact h
  · exact h

theorem ordered_detachHome (account : Account) (present : Bool) :
    (detachHome account present).Ends s fun _ t => t.root.Everywhere Node.Ordered := by
  unfold detachHome
  split
  · refine (detach_ends s account.home).mono ?_
    rintro _ _ ⟨-, rfl⟩
    exact ordered_detached h account.home
  · exact ends_pure h

/-- A deletion may fail once the account is erased, but not in the middle of a change of the tree. -/
theorem ordered_deleteUser (username : String) (removeHome : Bool) :
    ((deleteUser username removeHome).run s).2.root.Everywhere Node.Ordered := by
  rw [run_deleteUser]
  cases s.deletable username removeHome with
  | error fault => exact h
  | ok found =>
    obtain ⟨account, present⟩ := found
    have hEnds := ordered_detachHome (s := { s with accounts := s.accounts.erase username }) h account present
    have hKept := hEnds.keeps (P := fun t => t.root.Everywhere Node.Ordered) (fun _ _ ht => ht) h
    dsimp only
    cases hRun : (detachHome account present).run { s with accounts := s.accounts.erase username } with
    | mk result t =>
      rw [hRun] at hKept
      cases result with
      | error fault => exact hKept
      | ok _ =>
        rcases dropOwnGroup_eq t account with hSame | hDropped
        · dsimp only
          rw [hSame]
          exact hKept
        · dsimp only
          rw [hDropped]
          exact hKept

theorem ordered_apply (o : Operation) : (s.apply o).2.root.Everywhere Node.Ordered := by
  have hKeeps : ∀ {α : Type} {u : Update α}, u.Ends s (fun _ t => t.root.Everywhere Node.Ordered) →
      (u.run s).2.root.Everywhere Node.Ordered :=
    fun hEnds => hEnds.keeps (P := fun t => t.root.Everywhere Node.Ordered) (fun _ _ ht => ht) h
  rw [apply]
  cases o with
  | stat path => exact hKeeps (ends_map (ends_look fun _ _ => h))
  | list path hidden => exact hKeeps (ends_map (ends_look fun _ _ => h))
  | changeDirectory path =>
    refine hKeeps (ends_map ((changeDirectory_ends s path).mono ?_))
    rintro _ _ ⟨-, n, -, -, rfl⟩
    exact h
  | read path => exact hKeeps (ends_map (ends_look fun _ _ => h))
  | createFile path content => exact hKeeps (ends_map (ordered_createFile h content))
  | createDirectory path parents => exact hKeeps (ends_map (ordered_createDirectory h parents))
  | write path content append => exact hKeeps (ends_map (ordered_writeFile h content append))
  | remove path recursive =>
    refine hKeeps (ends_map ((remove_ends s path recursive).mono ?_))
    rintro _ _ ⟨-, -, n, parent, -, -, -, -, -, -, rfl⟩
    exact ordered_detached h _
  | removeDirectory path =>
    refine hKeeps (ends_map ((removeDirectory_ends s path).mono ?_))
    rintro _ _ ⟨-, -, n, parent, -, -, -, -, -, -, rfl⟩
    exact ordered_detached h _
  | move source dest => exact hKeeps (ends_map (ordered_move h source dest))
  | copy source dest recursive => exact hKeeps (ends_map (ordered_copy h source dest recursive))
  | changeMode path mode =>
    refine hKeeps (ends_map ((changeMode_ends s path mode).mono ?_))
    rintro _ _ ⟨n, -, -, -, rfl⟩
    exact ordered_mapInfo h fun _ => rfl
  | changeOwner path spec recursive => exact hKeeps (ends_map (ordered_changeOwner h spec recursive))
  | addGroup name =>
    refine hKeeps (ends_map ((addGroup_ends s name).mono ?_))
    rintro _ _ ⟨-, -, -, rfl⟩
    exact h
  | addUser username groups primary createHome =>
    exact hKeeps (ends_map (ordered_addUser h username groups primary createHome))
  | changeGroups username groups append =>
    refine hKeeps (ends_map ((changeGroups_ends s username groups append).mono ?_))
    rintro _ _ ⟨-, -, -, -, -, rfl⟩
    exact h
  | deleteUser username removeHome =>
    rw [steps, snd_run_map]
    exact ordered_deleteUser h username removeHome
  | switchUser username =>
    refine hKeeps (ends_map ((switchUser_ends s username).mono ?_))
    rintro _ _ ⟨-, -, rfl⟩
    exact h

end

end VirtualShell.Session
