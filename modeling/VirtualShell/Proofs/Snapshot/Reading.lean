import VirtualShell.Proofs.Session.Enrolment
import VirtualShell.Proofs.Snapshot.Accepting
import VirtualShell.Proofs.Snapshot.Draft

/-!
# Reading what was written

What is written down of a session describes it. It is read again if the session is whole, its working directory
is an absolute path and its tree is not too deep, and is rejected otherwise.
-/
namespace VirtualShell
set_option autoImplicit false

namespace Draft

theorem nodeFields_toFields {i : Info} {kind : NodeKind} {extra : List (String × Json)} {content : String}
    (hValid : i.Valid) (hName : i.name ≠ "") (hContent : HasOr (i.toFields kind ++ extra) "content" "" IsText content) :
    NodeFields (i.toFields kind ++ extra) kind i content where
  name := ⟨.string i.name, rfl, rfl, hName⟩
  kind := ⟨.string kind.text, rfl, rfl⟩
  permissions := ⟨.string i.permissions, rfl, rfl⟩
  owner := ⟨.string i.owner, rfl, rfl, hValid.owner⟩
  group := ⟨.string i.group, rfl, rfl, hValid.group⟩
  modified := rfl
  content := hContent

theorem describesAll_ofNodes {es : List Node} (h : ∀ e ∈ es, (ofNode e).Describes e.toJson) :
    DescribesAll (ofNodes es) (Node.toJsonList es) := by
  induction es with
  | nil => rfl
  | cons e es ih =>
    obtain ⟨he, hes⟩ := List.forall_mem_cons.mp h
    exact ⟨e.toJson, Node.toJsonList es, rfl, he, ih hes⟩

/-- A written tree describes its draft. -/
theorem describes_ofNode {n : Node} (h : n.WellFormed) (hName : n.name ≠ "") : (ofNode n).Describes n.toJson := by
  induction h with
  | @file i c hValid => exact ⟨_, rfl, nodeFields_toFields hValid hName rfl, rfl⟩
  | @dir i es hValid hOrder hPart hEntries ih =>
    refine ⟨_, rfl, nodeFields_toFields hValid hName rfl, _, rfl, describesAll_ofNodes fun e he => ?_⟩
    exact ih e he (Path.isPart_iff.mp (hPart e he)).1

theorem isList_map {α β : Type} {R : α → Json → Prop} {f : β → α} {write : β → Json} {xs : List β}
    (h : ∀ x ∈ xs, R (f x) (write x)) : IsList R (xs.map f) (.array (xs.map write)) := by
  refine ⟨_, rfl, ?_⟩
  rw [List.forall₂_map_left_iff, List.forall₂_map_right_iff]
  exact List.forall₂_same.mpr h

end Draft

def UserDraft.ofAccount (a : Account) : UserDraft where
  username := a.username
  primaryGroup := a.primaryGroup
  supplemental := a.supplemental.members
  home := a.home

theorem UserDraft.toAccount_ofAccount {a : Account} (h : a.Named) : (ofAccount a).toAccount = a := by
  have hGiven : (a.home != "") = true := bne_iff_ne.mpr h.home
  rw [ofAccount, toAccount, Account.create, Roster.ofList_members, if_pos hGiven]

theorem isList_namesToJson (names : Names) : Draft.IsList Draft.IsText names.members (namesToJson names) := by
  have hNames : Draft.IsList Draft.IsText (names.members.map id) (namesToJson names) :=
    Draft.isList_map fun _ _ => rfl
  rwa [List.map_id] at hNames

theorem UserDraft.describes_ofAccount {a : Account} (h : a.Named) : (ofAccount a).Describes a.toJson :=
  ⟨_, rfl, ⟨_, rfl, rfl, h.username⟩, ⟨_, rfl, rfl, h.primaryGroup⟩, isList_namesToJson a.supplemental, rfl⟩

/-- A session whose tree and accounts can be written down and read again. -/
structure Session.Whole (s : Session) : Prop where
  wellFormed : s.root.WellFormed
  name : s.root.name = "/"
  directory : s.isDirectory s.cwd = true
  user : s.accounts.contains s.username = true
  named : ∀ a ∈ s.accounts.members, a.Named
  groups : ∀ a ∈ s.accounts.members, ∀ g, a.groups.contains g = true → s.groups.contains g = true

theorem Session.Sound.whole {s : Session} (h : s.Sound) : s.Whole where
  wellFormed := h.tree.wellFormed
  name := h.tree.name
  directory := h.tree.directory
  user := h.accounts.user
  named a ha := (h.accounts.account a ha).named
  groups a ha := (h.accounts.account a ha).groups

namespace Snapshot

def ofSession (s : Session) : Snapshot where
  version := currentVersion
  tree := Draft.ofNode s.root
  cwd := some s.cwd
  username := some s.username
  users := some (s.accounts.members.map UserDraft.ofAccount)
  groups := some s.groups.members

variable {s : Session}

theorem describes_ofSession (h : s.Whole) : (ofSession s).Describes s.snapshot := by
  have hRoot : s.root.name ≠ "" := by
    rw [h.name]
    decide
  refine ⟨_, rfl, ?_⟩
  constructor
  · rfl
  · exact ⟨_, rfl, Draft.describes_ofNode h.wellFormed hRoot⟩
  · exact ⟨s.cwd, rfl, rfl⟩
  · exact ⟨s.username, rfl, rfl⟩
  · exact ⟨_, rfl, Draft.isList_map fun a ha => UserDraft.describes_ofAccount (h.named a ha)⟩
  · exact ⟨_, rfl, isList_namesToJson s.groups⟩

theorem nodup_usernames (s : Session) : (s.accounts.members.map Account.username).Nodup := by
  rw [List.Nodup, List.pairwise_map]
  refine s.accounts.ordered.imp ?_
  intro a b hLt hEq
  rw [hEq] at hLt
  exact String.lt_irrefl _ hLt

/-- All but the path of the working directory is as it is asked for. -/
theorem lawful_ofSession (h : s.Whole) : (ofSession s).Lawful ↔ s.cwd.toList.head? = some '/' := by
  have hNodes : (Draft.ofNode s.root).Orderly := Draft.orderly_ofNode h.wellFormed
  have hDirectory : s.root.isDirAt (Path.split s.cwd) = true := h.directory
  constructor
  · intro hLawful
    exact (hLawful.cwd s.cwd rfl).1
  · intro hAbsolute
    refine ⟨⟨?_, ?_⟩, hNodes, ?_, ?_⟩
    · show (Draft.ofNode s.root).kind = .dir
      rw [Draft.kind_ofNode, Node.kind_eq_dir_iff]
      exact Node.isDir_of_isDirAt hDirectory
    · show (Draft.ofNode s.root).name = "/"
      rw [Draft.name_ofNode, h.name]
    · rintro _ ⟨⟩
      refine ⟨hAbsolute, hNodes.leadsThrough_iff.mpr ?_⟩
      rw [Draft.toNode_ofNode h.wellFormed]
      exact hDirectory
    · rintro _ ⟨⟩
      have hNames : (s.accounts.members.map UserDraft.ofAccount).map UserDraft.username =
          s.accounts.members.map Account.username := List.map_map
      rw [hNames]
      refine ⟨nodup_usernames s, ?_, ?_⟩
      · rintro _ ⟨⟩
        exact List.mem_map.mpr (Roster.contains_iff.mp h.user)
      · rintro _ ⟨⟩ u hu
        obtain ⟨a, ha, rfl⟩ := List.mem_map.mp hu
        have hKnown : ∀ g, a.groups.contains g = true → g ∈ s.groups.members :=
          fun g hg => Names.contains_iff_mem.mp (h.groups a ha g hg)
        simp only [Account.contains_groups, Bool.or_eq_true] at hKnown
        exact ⟨hKnown _ (.inl (beq_self_eq_true _)), fun g hg => hKnown g (.inr (Names.contains_iff_mem.mpr hg))⟩

theorem read_snapshot (h : s.Whole) (hAbsolute : s.cwd.toList.head? = some '/') (hFits : s.root.Fits deepest) :
    read s.snapshot = .ok (ofSession s) :=
  read_eq_ok_iff.mpr ⟨describes_ofSession h, (lawful_ofSession h).mpr hAbsolute,
    (Draft.fits_ofNode h.wellFormed).mpr hFits⟩

end Snapshot

end VirtualShell
