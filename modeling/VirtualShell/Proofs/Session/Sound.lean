import VirtualShell.Proofs.Roster
import VirtualShell.Proofs.Session.Operations
import VirtualShell.Proofs.Session.Reach
import VirtualShell.Proofs.Tree.Entries

/-!
# Sound sessions

The tree is well-formed below a root named by the slash, and the working directory is the canonical
path of a directory in it. The accounts have names, homes below the root and known groups, and all
users that act or will act again have one.
-/
namespace VirtualShell
set_option autoImplicit false

/-- An account with a name and a group, whose groups are known and whose home lies below the root. -/
structure Account.Valid (groups : Names) (a : Account) : Prop where
  username : a.username ≠ ""
  primaryGroup : a.primaryGroup ≠ ""
  home : Path.isCanonical a.home = true
  home_ne_root : a.home ≠ "/"
  groups : ∀ g, a.groups.contains g = true → groups.contains g = true

namespace Session

section

variable (s : Session) (path : String)

@[simp] theorem cwd_modifyAt (f : Node → Node) : (s.modifyAt path f).cwd = s.cwd := rfl

@[simp] theorem cwd_removeEntry (name : String) : (s.removeEntry path name).cwd = s.cwd := rfl

@[simp] theorem cwd_addEntry (e : Node) : (s.addEntry path e).cwd = s.cwd := rfl

@[simp] theorem switches_removeEntry (name : String) : (s.removeEntry path name).switches = s.switches := rfl

@[simp] theorem switches_addEntry (e : Node) : (s.addEntry path e).switches = s.switches := rfl

@[simp] theorem now_removeEntry (name : String) : (s.removeEntry path name).now = s.now := rfl

theorem root_stepOut : (s.stepOut path).root = s.root := by
  unfold stepOut
  split
  · rfl
  · rfl

theorem root_follow (source final : String) : (s.follow source final).root = s.root := by
  unfold follow
  split
  · rfl
  · rfl

variable {ps : List String} (h : Path.AreParts ps)

include h

theorem root_removeEntry (name : String) : (s.removeEntry (Path.ofParts ps) name).root =
    s.root.modify (fun m => (m.dropEntry name).touch s.now) ps := by
  rw [removeEntry, modifyAt, Path.split_ofParts h]

theorem root_addEntry (e : Node) : (s.addEntry (Path.ofParts ps) e).root =
    s.root.modify (fun m => (m.putEntry e).touch s.now) ps := by
  rw [addEntry, modifyAt, Path.split_ofParts h]

end

structure TreeSound (s : Session) : Prop where
  wellFormed : s.root.WellFormed
  name : s.root.name = "/"
  canonical : Path.isCanonical s.cwd = true
  directory : s.isDirectory s.cwd = true

structure AccountsSound (s : Session) : Prop where
  admin : s.accounts.contains adminName = true
  user : s.accounts.contains s.username = true
  elevations : ∀ u ∈ s.elevations, s.accounts.contains u = true
  account : ∀ a ∈ s.accounts.members, a.Valid s.groups
  group : s.groups.contains "" = false

structure Sound (s : Session) : Prop where
  tree : s.TreeSound
  accounts : s.AccountsSound

namespace TreeSound

variable {s : Session}

theorem isDir (h : s.TreeSound) : s.root.isDir = true := Node.isDir_of_isDirAt h.directory

theorem of_tree_eq {t : Session} (h : s.TreeSound) (hRoot : t.root = s.root) (hCwd : t.cwd = s.cwd) :
    t.TreeSound := by
  refine ⟨hRoot ▸ h.wellFormed, hRoot ▸ h.name, hCwd ▸ h.canonical, ?_⟩
  rw [isDirectory_eq, hRoot, hCwd]
  exact h.directory

end TreeSound

end Session

end VirtualShell
