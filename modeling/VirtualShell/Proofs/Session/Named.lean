import VirtualShell.Proofs.Session.Enrolment
import VirtualShell.Proofs.Session.Run
import VirtualShell.Proofs.Tree.Everywhere

/-!
# Names of nodes

New nodes get names from three places: the path that is to be written, the destination of a move or a copy,
and the name of a new account. What holds of those holds of all names that there ever are. One such property
is that a name is a text at all, which holds whatever the session is like otherwise.
-/
namespace VirtualShell
set_option autoImplicit false

namespace Node

def HasName (n : Node) : Prop := n.name ≠ ""

/-- Neither this node nor one below it lacks a name. -/
abbrev Named (n : Node) : Prop := n.Everywhere HasName

variable {N : String → Prop} {n e : Node}

theorem AllNames.mapInfo {g : Info → Info} (h : n.AllNames N) (hName : N (g n.info).name) :
    (n.mapInfo g).AllNames N := by
  refine Everywhere.mapInfo h ?_
  rw [name, info_mapInfo]
  exact hName

theorem AllNames.touch (h : n.AllNames N) (time : Float) : (n.touch time).AllNames N := h.mapInfo h.here

theorem AllNames.rename (h : n.AllNames N) {new : String} (hNew : N new) : (n.rename new).AllNames N :=
  h.mapInfo hNew

theorem AllNames.mapAll {g : Info → Info} (h : n.AllNames N) (hName : ∀ i : Info, (g i).name = i.name) :
    (n.mapAll g).AllNames N := by
  refine Everywhere.mapAll h fun m hm => ?_
  rw [keepsName_mapAll hName]
  exact hm

theorem AllNames.modify {f : Node → Node} (h : n.AllNames N) (hf : KeepsName f)
    (hKeep : ∀ m : Node, m.AllNames N → (f m).AllNames N) (ps : List String) : (n.modify f ps).AllNames N := by
  refine Everywhere.modify hf hKeep (fun m g _ hm => ?_) ps h
  rw [name_mapEntries]
  exact hm

theorem AllNames.put (h : n.AllNames N) (he : e.AllNames N) (time : Float) (ps : List String) :
    (n.modify (fun m => (m.putEntry e).touch time) ps).AllNames N := by
  refine h.modify (keepsName_putEntry e time) (fun m hm => ?_) ps
  have hPut : N (m.putEntry e).name := by
    rw [putEntry, name_mapEntries]
    exact hm.here
  exact AllNames.touch (Everywhere.putEntry hm he hPut) time

theorem AllNames.drop (h : n.AllNames N) (name : String) (time : Float) (ps : List String) :
    (n.modify (fun m => (m.dropEntry name).touch time) ps).AllNames N := by
  refine h.modify (keepsName_dropEntry name time) (fun m hm => ?_) ps
  have hDrop : N (m.dropEntry name).name := by
    rw [dropEntry, name_mapEntries]
    exact hm.here
  exact AllNames.touch (Everywhere.dropEntry hm hDrop) time

theorem AllNames.overwrite (h : n.AllNames N) (text : String) (time : Float) (ps : List String) :
    (n.modify (fun m => (m.setContent text).touch time) ps).AllNames N := by
  refine h.modify (fun m => by simp) (fun m hm => ?_) ps
  have hSet : N (m.setContent text).name := by
    rw [name_setContent]
    exact hm.here
  exact AllNames.touch (Everywhere.setContent hm hSet) time

/-- The names on the way to a node. -/
theorem AllNames.of_get? {m : Node} {ps : List String} (h : n.AllNames N) (hm : n.get? ps = some m) : ∀ p ∈ ps, N p := by
  induction ps generalizing n with
  | nil => exact List.forall_mem_nil _
  | cons q qs ih =>
    obtain ⟨e, he, hm⟩ := Option.bind_eq_some_iff.mp hm
    have hEntry := h.of_mem (mem_of_child? he)
    refine List.forall_mem_cons.mpr ⟨?_, ih hEntry hm⟩
    rw [← name_of_child? he]
    exact hEntry.here

theorem WellFormed.named (h : n.WellFormed) (hName : n.name ≠ "") : n.Named := by
  induction h with
  | file _ => exact allNames_file (N := (· ≠ "")) hName
  | dir _ _ hPart _ ih =>
    exact allNames_dir (N := (· ≠ "")) hName fun e he => ih e he (Path.isPart_iff.mp (hPart e he)).1

end Node

/-- Whom the operation enlists has a name of which `N` holds. -/
def Operation.Enlists (N : String → Prop) : Operation → Prop
  | .addUser username .. => isAccountName username = true → N username
  | _ => True

namespace Session

open Update

/-- `N` holds of the names that a session has for what is made in it, if it holds of those in its tree. -/
structure Admits (N : String → Prop) (s : Session) : Prop where
  slash : N "/"
  part : ∀ {path target}, s.requireWritePath path = .ok target → ∀ p ∈ Path.split target, N p
  destination : ∀ {n dest directory name}, N n.name → s.destination n dest = .ok (directory, name) →
    Path.hasUnsafe name = false → N name

variable {N : String → Prop} {s : Session} {path : PathArg}

theorem Admits.baseName {target : String} (hs : s.Admits N) (h : s.requireWritePath path = .ok target) :
    N (Path.baseName target) := by
  unfold Path.baseName
  cases hLast : (Path.split target).getLast? with
  | none => exact hs.slash
  | some last => exact hs.part h last (List.mem_of_getLast? hLast)

theorem allNames_newChain {p : String} {ps : List String} (s : Session) (h : ∀ q ∈ p :: ps, N q) :
    (s.newChain p ps).AllNames N := by
  induction ps generalizing p with
  | nil => exact Node.allNames_dir (h p List.mem_cons_self) (by simp)
  | cons q qs ih =>
    refine Node.allNames_dir (h p List.mem_cons_self) fun e he => ?_
    rw [List.mem_singleton.mp he]
    exact ih fun r hr => h r (List.mem_cons_of_mem p hr)

theorem allNames_cloned {n : Node} {name : String} (s : Session) (h : n.AllNames N) (hName : N name) :
    (s.cloned n name).AllNames N := by
  refine Node.AllNames.rename ?_ hName
  exact h.mapAll fun _ => rfl

theorem allNames_modifyInfo {g : Info → Info} {target : String} (h : s.root.AllNames N)
    (hName : ∀ i : Info, (g i).name = i.name) : (s.modifyAt target (Node.mapInfo g)).root.AllNames N := by
  refine h.modify (fun m => ?_) (fun m hm => hm.mapInfo ?_) _
  · rw [Node.name, Node.info_mapInfo, hName, Node.name]
  · rw [hName]
    exact hm.here

theorem allNames_modifyAll {g : Info → Info} {target : String} (h : s.root.AllNames N)
    (hName : ∀ i : Info, (g i).name = i.name) : (s.modifyAt target (Node.mapAll g)).root.AllNames N :=
  h.modify (Node.keepsName_mapAll hName) (fun _ hm => hm.mapAll hName) _

theorem allNames_addEntry {e : Node} (h : s.root.AllNames N) (he : e.AllNames N) (directory : String) :
    (s.addEntry directory e).root.AllNames N := h.put he _ _

theorem allNames_removeEntry (h : s.root.AllNames N) (directory name : String) :
    (s.removeEntry directory name).root.AllNames N := h.drop name _ _

theorem allNames_overwrite (h : s.root.AllNames N) (target content : String) :
    (s.overwrite target content).root.AllNames N := h.overwrite content _ _

theorem allNames_detached (h : s.root.AllNames N) (target : String) : (s.detached target).root.AllNames N := by
  rw [detached, root_stepOut]
  exact allNames_removeEntry h _ _

variable (h : s.root.AllNames N)

include h

theorem createFile_names (hs : s.Admits N) (content : String) :
    (createFile path content).Ends s fun _ t => t.root.AllNames N := by
  refine (createFile_ends s path content).mono ?_
  rintro target t ⟨hTarget, parent, -, ⟨i, c, -, -, rfl⟩ | ⟨-, -, rfl⟩⟩
  · exact allNames_modifyInfo h fun _ => rfl
  · exact allNames_addEntry h (Node.allNames_file (hs.baseName hTarget)) _

theorem createDirectory_names (hs : s.Admits N) (parents : Bool) :
    (createDirectory path parents).Ends s fun _ t => t.root.AllNames N := by
  refine (createDirectory_ends s path parents).mono ?_
  rintro target t ⟨hTarget, plan, hPlan, ht⟩
  split at ht
  · rw [ht]
    exact h
  · rw [ht]
    exact h
  · obtain ⟨done, q, qs, hRest, hParts, -⟩ := planDirectories_missing hPlan
    rw [ht.2]
    refine allNames_addEntry h (s.allNames_newChain fun r hr => hs.part hTarget r ?_) _
    rw [hParts, ← hRest]
    exact List.mem_append_right done hr

theorem writeFile_names (hs : s.Admits N) (content : String) (append : Bool) :
    (writeFile path content append).Ends s fun _ t => t.root.AllNames N := by
  refine (writeFile_ends s path content append).mono ?_
  rintro target t ⟨hTarget, parent, -, ⟨i, c, -, -, rfl⟩ | ⟨-, -, rfl⟩⟩
  · exact allNames_overwrite h _ _
  · exact allNames_addEntry h (Node.allNames_file (hs.baseName hTarget)) _

theorem detach_names (target : String) : (detach target).Ends s fun _ t => t.root.AllNames N := by
  refine (detach_ends s target).mono ?_
  rintro _ _ ⟨-, rfl⟩
  exact allNames_detached h _

theorem remove_names (recursive : Bool) : (remove path recursive).Ends s fun _ t => t.root.AllNames N := by
  refine (remove_ends s path recursive).mono ?_
  rintro target _ ⟨-, -, n, parent, -, -, -, -, -, -, rfl⟩
  exact allNames_detached h _

theorem removeDirectory_names : (removeDirectory path).Ends s fun _ t => t.root.AllNames N := by
  refine (removeDirectory_ends s path).mono ?_
  rintro target _ ⟨-, -, n, parent, -, -, -, -, -, -, rfl⟩
  exact allNames_detached h _

theorem move_names (hs : s.Admits N) (source dest : PathArg) :
    (move source dest).Ends s fun _ t => t.root.AllNames N := by
  refine (move_ends s source dest).mono ?_
  rintro final _ ⟨-, n, directory, name, hn, -, hDest, -,
    ⟨-, rfl⟩ | ⟨-, -, hSafe, parent, target, -, -, -, -, -, rfl⟩⟩
  · exact h
  · have hNode : n.AllNames N := h.get? (lookup_of_reach hn)
    rw [moved, root_follow]
    exact allNames_addEntry (allNames_removeEntry h _ _) (hNode.rename (hs.destination hNode.here hDest hSafe)) _

theorem copy_names (hs : s.Admits N) (source dest : PathArg) (recursive : Bool) :
    (copy source dest recursive).Ends s fun _ t => t.root.AllNames N := by
  refine (copy_ends s source dest recursive).mono ?_
  rintro final _ ⟨n, directory, name, hn, -, -, hDest, -, -, -, hSafe, target, -,
    ⟨e, -, -, -, -, rfl⟩ | ⟨-, -, rfl⟩⟩
  · exact allNames_overwrite h _ _
  · have hNode : n.AllNames N := h.get? (lookup_of_reach hn)
    exact allNames_addEntry h (s.allNames_cloned hNode (hs.destination hNode.here hDest hSafe)) _

theorem changeMode_names (mode : String) : (changeMode path mode).Ends s fun _ t => t.root.AllNames N := by
  refine (changeMode_ends s path mode).mono ?_
  rintro permissions _ ⟨n, -, -, -, rfl⟩
  exact allNames_modifyInfo h fun _ => rfl

theorem changeOwner_names (spec : String) (recursive : Bool) :
    (changeOwner path spec recursive).Ends s fun _ t => t.root.AllNames N := by
  refine (changeOwner_ends s path spec recursive).mono ?_
  rintro target _ ⟨-, -, -, -, n, -, -, rfl⟩
  cases recursive with
  | false => exact allNames_modifyInfo h fun _ => rfl
  | true => exact allNames_modifyAll h fun _ => rfl

theorem addUser_names {username : String} (hName : isAccountName username = true → N username) (groups : List String)
    (primary : Option String) (createHome : Bool) :
    (addUser username groups primary createHome).Ends s fun _ t => t.root.AllNames N := by
  refine (addUser_ends s username groups primary createHome).mono ?_
  rintro account _ ⟨-, hAccount, -, -, -, -, -, rfl⟩
  dsimp only
  split
  · unfold addHome
    split
    · exact h
    · exact allNames_addEntry h (Node.allNames_dir (hName hAccount) (by simp)) _
  · exact h

theorem deleteUser_names (username : String) (removeHome : Bool) :
    ((deleteUser username removeHome).run s).2.root.AllNames N := by
  rw [run_deleteUser]
  split
  · exact h
  · rename_i account present _
    have hErased : (Session.root { s with accounts := s.accounts.erase username }).AllNames N := h
    have hDetach : (detachHome account present).Ends { s with accounts := s.accounts.erase username }
        fun _ t => t.root.AllNames N := by
      unfold detachHome
      split
      · exact detach_names hErased _
      · exact ends_pure hErased
    have hAfter := hDetach.keeps (P := fun t => t.root.AllNames N) (fun _ _ ht => ht) h
    split
    · rename_i hRun
      rwa [hRun] at hAfter
    · rename_i t hRun
      rw [hRun] at hAfter
      rcases dropOwnGroup_eq t account with hSame | hErased
      · rw [hSame]
        exact hAfter
      · rw [hErased]
        exact hAfter

/-- Operations make no names but those that the session has for them, and that of a new account. -/
theorem apply_names (hs : s.Admits N) (o : Operation) (ho : o.Enlists N) : (s.apply o).2.root.AllNames N := by
  have hKeeps : ∀ {α : Type} {u : Update α}, u.Ends s (fun _ t => t.root.AllNames N) → (u.run s).2.root.AllNames N :=
    fun hEnds => hEnds.keeps (P := fun t => t.root.AllNames N) (fun _ _ ht => ht) h
  rw [apply]
  cases o with
  | stat path => exact hKeeps (ends_map (ends_look fun _ _ => h))
  | list path hidden => exact hKeeps (ends_map (ends_look fun _ _ => h))
  | changeDirectory path =>
    refine hKeeps (ends_map ((changeDirectory_ends s path).mono ?_))
    rintro target _ ⟨-, n, -, -, rfl⟩
    exact h
  | read path => exact hKeeps (ends_map (ends_look fun _ _ => h))
  | createFile path content => exact hKeeps (ends_map (createFile_names h hs content))
  | createDirectory path parents => exact hKeeps (ends_map (createDirectory_names h hs parents))
  | write path content append => exact hKeeps (ends_map (writeFile_names h hs content append))
  | remove path recursive => exact hKeeps (ends_map (remove_names h recursive))
  | removeDirectory path => exact hKeeps (ends_map (removeDirectory_names h))
  | move source dest => exact hKeeps (ends_map (move_names h hs source dest))
  | copy source dest recursive => exact hKeeps (ends_map (copy_names h hs source dest recursive))
  | changeMode path mode => exact hKeeps (ends_map (changeMode_names h mode))
  | changeOwner path spec recursive => exact hKeeps (ends_map (changeOwner_names h spec recursive))
  | addGroup name =>
    refine hKeeps (ends_map ((addGroup_ends s name).mono ?_))
    rintro _ _ ⟨-, -, -, rfl⟩
    exact h
  | addUser username groups primary createHome =>
    exact hKeeps (ends_map (addUser_names h ho groups primary createHome))
  | changeGroups username groups append =>
    refine hKeeps (ends_map ((changeGroups_ends s username groups append).mono ?_))
    rintro _ _ ⟨-, -, account, -, -, rfl⟩
    exact h
  | deleteUser username removeHome =>
    rw [steps, snd_run_map]
    exact deleteUser_names h username removeHome
  | switchUser username =>
    refine hKeeps (ends_map ((switchUser_ends s username).mono ?_))
    rintro _ _ ⟨-, -, rfl⟩
    exact h

omit h

theorem baseName_ne (path : String) : Path.baseName path ≠ "" := by
  unfold Path.baseName
  cases hLast : (Path.split path).getLast? with
  | none => decide
  | some last => exact (Path.ne_and_not_slash_of_mem_split (List.mem_of_getLast? hLast)).1

theorem destination_name_ne {n : Node} {dest : PathArg} {directory name : String} (hn : n.name ≠ "")
    (h : s.destination n dest = .ok (directory, name)) : name ≠ "" := by
  cases dest with
  | none => cases h
  | some typed =>
    simp only [destination] at h
    split at h
    · cases h
    · split at h
      · cases h
        exact hn
      · cases h
        exact baseName_ne _

theorem admits_named (s : Session) : s.Admits (· ≠ "") :=
  ⟨by decide, fun _ _ hp => (Path.ne_and_not_slash_of_mem_split hp).1, fun hn h _ => destination_name_ne hn h⟩

theorem steps_named (o : Operation) : Keeps (·.root.Named) (steps o) := by
  intro s h
  refine apply_names (N := (· ≠ "")) h (admits_named s) o ?_
  cases o with
  | addUser => exact fun hName => (Path.isPart_iff.mp (isPart_of_isAccountName hName)).1
  | _ => trivial

theorem Reached.named {marks : List Mark} (h : Reached marks s) : s.root.Named := by
  obtain ⟨hTree, -⟩ := h.inv.sound
  refine hTree.wellFormed.named ?_
  rw [hTree.name]
  decide

end Session

end VirtualShell
