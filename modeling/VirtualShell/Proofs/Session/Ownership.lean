import VirtualShell.Proofs.Session.Removal

/-!
# Changing owners

Whether owner and group of a node, or of all nodes of a subtree, may be changed is decided before the first of them is
written. Then all of these nodes get what is given, and nothing else changes. But for the administrator, nobody changes
more than the group of nodes of his own.
-/
namespace VirtualShell.Session
set_option autoImplicit false

open Update

def Concerns (recursive : Bool) (place qs : List String) : Prop := if recursive = true then place <+: qs else qs = place

instance (recursive : Bool) (place qs : List String) : Decidable (Concerns recursive place qs) :=
  inferInstanceAs (Decidable (if recursive = true then place <+: qs else qs = place))

/-- Of the nodes that are concerned each is the user's, stays with him and goes to a group of his, if it goes to one. -/
structure Entitled (s : Session) (owners : OwnerSpec) (concerned : List String → Prop) : Prop where
  owned : ∀ qs m, concerned qs → s.root.get? qs = some m → m.info.owner = s.username
  kept : ∀ owner, owners.owner = some owner → owner = s.username
  member : ∀ group, owners.group = some group → s.subject.groups.contains group = true

/-- `t` is the session `s` after the nodes that are concerned got the owner and the group that are given. -/
structure Reowned (s : Session) (owners : OwnerSpec) (concerned : List String → Prop) (t : Session) : Prop where
  given : ∀ qs, concerned qs → t.root.ownAt qs = (s.root.ownAt qs).map (Node.mapInfo (OwnerSpec.applyTo owners))
  elsewhere : ∀ qs, ¬concerned qs → t.root.ownAt qs = s.root.ownAt qs
  cwd : t.cwd = s.cwd
  now : t.now = s.now
  identity : SameIdentity s t

/-- The node at `qs` belongs to the same user in both sessions, if it is there. -/
def SameOwnerAt (s t : Session) (qs : List String) : Prop :=
  (t.root.get? qs).map (·.info.owner) = (s.root.get? qs).map (·.info.owner)

variable {s t : Session} {path : PathArg} {owners : OwnerSpec} {recursive : Bool} {place qs : List String} {n : Node}

theorem concerns_self (recursive : Bool) (place : List String) : Concerns recursive place place := by
  unfold Concerns
  split
  · exact List.prefix_rfl
  · rfl

theorem mayReown_iff {i : Info} : mayReown s.subject owners i = true ↔ i.owner = s.username ∧
    (∀ owner, owners.owner = some owner → owner = i.owner) ∧
      ∀ group, owners.group = some group → s.subject.groups.contains group = true := by
  have hOwns : s.subject.owns i = true ↔ i.owner = s.username := by
    rw [Subject.owns, subject_username, beq_iff_eq, eq_comm]
  rw [mayReown, Bool.and_eq_true, Bool.and_eq_true, hOwns, and_assoc]
  refine and_congr_right fun _ => and_congr ?_ ?_
  · cases owners.owner <;> simp
  · cases owners.group <;> simp

/-- The nodes that are asked about are those at the places that are concerned. -/
theorem forall_concerned_iff (h : s.root.Everywhere Node.Ordered) (hn : s.root.get? place = some n) (full : String)
    {P : Node → Prop} : (∀ m ∈ if recursive then (n.walk full).map Prod.snd else [n], P m) ↔
      ∀ qs m, Concerns recursive place qs → s.root.get? qs = some m → P m := by
  cases recursive with
  | false =>
    simp only [Bool.false_eq_true, if_false, Concerns, List.forall_mem_singleton]
    constructor
    · rintro hP _ m rfl hm
      cases hn.symm.trans hm
      exact hP
    · exact fun hP => hP place n rfl hn
  | true =>
    have hWalk : (∀ m ∈ (n.walk full).map Prod.snd, P m) ↔ ∀ q m, (q, m) ∈ n.walk full → P m := by
      simp only [List.mem_map, Prod.exists, exists_eq_right]
      exact ⟨fun hP q m hm => hP m ⟨q, hm⟩, fun hP m ⟨q, hm⟩ => hP q m hm⟩
    simp only [if_true, Concerns]
    rw [hWalk, ← Node.everywhere_iff_walk, Node.everywhere_iff_get? (h.get? hn)]
    constructor
    · rintro hP _ m ⟨rest, rfl⟩ hm
      rw [Node.get?_append, hn] at hm
      exact hP rest m hm
    · intro hP rest m hm
      refine hP (place ++ rest) m (List.prefix_append place rest) ?_
      rw [Node.get?_append, hn]
      exact hm

theorem entitled_iff (h : s.root.Everywhere Node.Ordered) (hn : s.root.get? place = some n) (full : String) :
    s.Entitled owners (Concerns recursive place) ↔
      ∀ m ∈ if recursive then (n.walk full).map Prod.snd else [n], mayReown s.subject owners m.info = true := by
  rw [forall_concerned_iff h hn full]
  simp only [mayReown_iff]
  constructor
  · rintro ⟨hOwned, hKept, hMember⟩ qs m hqs hm
    have hOwner := hOwned qs m hqs hm
    exact ⟨hOwner, fun owner hGiven => (hKept owner hGiven).trans hOwner.symm, hMember⟩
  · intro hAll
    obtain ⟨hOwner, hKept, hMember⟩ := hAll place n (concerns_self recursive place) hn
    exact ⟨fun qs m hqs hm => (hAll qs m hqs hm).1, fun owner hGiven => (hKept owner hGiven).trans hOwner, hMember⟩

theorem reowned_modifyAt (s : Session) (owners : OwnerSpec) (full : String) (recursive : Bool) :
    s.Reowned owners (Concerns recursive (Path.split full)) (s.modifyAt full
      (if recursive then Node.mapAll (OwnerSpec.applyTo owners) else Node.mapInfo (OwnerSpec.applyTo owners))) := by
  have hName : ∀ i : Info, (OwnerSpec.applyTo owners i).name = i.name := fun _ => rfl
  have hOwn : ∀ qs, (s.modifyAt full (if recursive then Node.mapAll (OwnerSpec.applyTo owners)
      else Node.mapInfo (OwnerSpec.applyTo owners))).root.ownAt qs =
        (s.root.ownAt qs).map fun e => if Concerns recursive (Path.split full) qs then
          e.mapInfo (OwnerSpec.applyTo owners) else e := by
    intro qs
    cases recursive with
    | false => exact Node.ownAt_modify_mapInfo hName s.root
    | true => exact Node.ownAt_modify_mapAll hName s.root
  refine ⟨fun qs hqs => ?_, fun qs hqs => ?_, rfl, rfl, sameIdentity_modifyAt s _ _⟩
  · rw [hOwn]
    simp only [if_pos hqs]
  · rw [hOwn]
    simp [if_neg hqs]

/-- Nodes that are the user's own stay with him, and all others with whomever they belong to. -/
theorem Entitled.sameOwnerAt {concerned : List String → Prop} (h : s.Entitled owners concerned)
    (hReowned : s.Reowned owners concerned t) (qs : List String) : s.SameOwnerAt t qs := by
  have hOwner : ∀ r : Node, (r.get? qs).map (·.info.owner) = (r.ownAt qs).map (·.info.owner) := by
    intro r
    rw [Node.ownAt, Option.map_map]
    congr 1
    funext e
    rw [Function.comp_apply, Node.info_bare]
  rw [SameOwnerAt, hOwner]
  by_cases hqs : concerned qs
  · rw [hReowned.given qs hqs, Node.ownAt, Option.map_map, Option.map_map]
    refine Option.map_congr fun m hm => ?_
    have hOwned := h.owned qs m hqs hm
    have hKept : owners.owner.getD m.info.owner = m.info.owner := by
      cases hGiven : owners.owner with
      | none => rfl
      | some owner => exact (h.kept owner hGiven).trans hOwned.symm
    simpa [OwnerSpec.applyTo] using hKept
  · rw [hReowned.elsewhere qs hqs, hOwner]

theorem changeOwner_returns {spec : String}
    (hGiven : (OwnerSpec.ofText spec).owner ≠ none ∨ (OwnerSpec.ofText spec).group ≠ none)
    (hOwner : ∀ owner, (OwnerSpec.ofText spec).owner = some owner → s.accounts.contains owner = true)
    (hGroup : ∀ group, (OwnerSpec.ofText spec).group = some group → s.groups.contains group = true)
    (hn : s.reach (s.resolve path) path = .ok n)
    (hMay : s.subject.isAdmin = true ∨ ∀ m ∈ if recursive then (n.walk (s.resolve path)).map Prod.snd else [n],
      mayReown s.subject (OwnerSpec.ofText spec) m.info = true) :
    (changeOwner path spec recursive).Returns s fun _ _ => True := by
  unfold changeOwner
  apply returns_session_bind
  dsimp only
  generalize OwnerSpec.ofText spec = owners at *
  refine returns_error_ite ?_ (returns_error_ite ?_ (returns_error_ite ?_ (returns_lift_bind hn ?_)))
  · cases hNone : owners.owner <;> cases hNone' : owners.group <;> simp_all
  · cases hEq : owners.owner with
    | none => simp
    | some owner => simpa using hOwner owner hEq
  · cases hEq : owners.group with
    | none => simp
    | some group => simpa using hGroup group hEq
  · rw [if_pos]
    · exact returns_write_bind (returns_pure trivial)
    · rw [Bool.or_eq_true, List.all_eq_true]
      exact hMay

/-- A change of owner is made for all nodes that it is about or for none of them. But for the administrator, it needs
all of them to be the user's own, and leaves them to him. -/
theorem changeOwner_exact (h : s.root.Everywhere Node.Ordered) (path : PathArg) (spec : String) (recursive : Bool) :
    (changeOwner path spec recursive).Decided s
      (((OwnerSpec.ofText spec).owner ≠ none ∨ (OwnerSpec.ofText spec).group ≠ none) ∧
        (∀ owner, (OwnerSpec.ofText spec).owner = some owner → s.accounts.contains owner = true) ∧
        (∀ group, (OwnerSpec.ofText spec).group = some group → s.groups.contains group = true) ∧
        s.lookup (s.resolve path) ≠ none ∧ s.Searchable (Path.split (s.resolve path)) ∧
        (s.subject.isAdmin = true ∨
          s.Entitled (OwnerSpec.ofText spec) (Concerns recursive (Path.split (s.resolve path)))))
      fun target t => target = s.resolve path ∧
        s.Reowned (OwnerSpec.ofText spec) (Concerns recursive (Path.split target)) t ∧
        (s.subject.isAdmin = false →
          s.Entitled (OwnerSpec.ofText spec) (Concerns recursive (Path.split target)) ∧ ∀ qs, s.SameOwnerAt t qs) := by
  apply decided_of_ends
  · refine (changeOwner_ends s path spec recursive).mono ?_
    rintro target t ⟨rfl, hGiven, hOwner, hGroup, n, hn, hMay, rfl⟩
    obtain ⟨hLookup, hSearch⟩ := reach_eq_ok_iff.mp hn
    rw [← entitled_iff h hLookup] at hMay
    have hReowned := reowned_modifyAt s (OwnerSpec.ofText spec) (s.resolve path) recursive
    refine ⟨⟨hGiven, hOwner, hGroup, ?_, hSearch, hMay⟩, rfl, hReowned, fun hUser => ?_⟩
    · rw [hLookup]
      exact Option.some_ne_none n
    · have hEntitled := hMay.resolve_left (by simp [hUser])
      exact ⟨hEntitled, hEntitled.sameOwnerAt hReowned⟩
  · rintro ⟨hGiven, hOwner, hGroup, hSome, hSearch, hMay⟩
    obtain ⟨n, hLookup⟩ := Option.ne_none_iff_exists'.mp hSome
    rw [entitled_iff h hLookup (s.resolve path)] at hMay
    exact changeOwner_returns hGiven hOwner hGroup (reach_eq_ok_iff.mpr ⟨hLookup, hSearch⟩) hMay

/-- A user shares all of his documents with the members of a group that he is in. -/
theorem shared_documents : ∃ s t, Session.fresh? "user" 0.0 = some s ∧ s.root.Everywhere Node.Ordered ∧
    (changeOwner (some "documents") ":security" true).run s = (.ok "/home/user/documents", t) ∧
    s.subject.isAdmin = false ∧
    s.Reowned (OwnerSpec.ofText ":security") (Concerns true ["home", "user", "documents"]) t ∧
    s.Entitled (OwnerSpec.ofText ":security") (Concerns true ["home", "user", "documents"]) ∧
    ∀ qs, s.SameOwnerAt t qs := by
  have hRun : (Session.fresh? "user" 0.0).map (fun s => (s.subject.isAdmin,
      ((changeOwner (some "documents") ":security" true).run s).1.toOption)) =
      some (false, some "/home/user/documents") := by
    decide +kernel
  have hSplit : Path.split "/home/user/documents" = ["home", "user", "documents"] := by decide
  obtain ⟨s, hFresh, hShared⟩ := Option.map_eq_some_iff.mp hRun
  obtain ⟨hUser, hOk⟩ := Prod.mk.inj hShared
  have hOrdered := (Reached.start hFresh).inv.sound.tree.wellFormed.everywhere_ordered
  obtain ⟨t, hEnd⟩ := exists_run_eq hOk
  obtain ⟨-, hReowned, hOthers⟩ := (changeOwner_exact hOrdered (some "documents") ":security" true).answer _ t hEnd
  rw [hSplit] at hReowned hOthers
  obtain ⟨hEntitled, hSame⟩ := hOthers hUser
  exact ⟨s, t, hFresh, hOrdered, hEnd, hUser, hReowned, hEntitled, hSame⟩

end VirtualShell.Session
