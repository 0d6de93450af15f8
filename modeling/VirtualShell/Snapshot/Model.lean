import VirtualShell.Json
import VirtualShell.Session.State

/-!
# Snapshots

A snapshot describes a whole session. In a `Draft` of its tree a file may have children and a
directory content; `SnapshotDefect.rule` is the answer to such drafts. `Session.snapshot` writes a
session down.
-/
namespace VirtualShell
set_option autoImplicit false

inductive Draft where
  | mk (kind : NodeKind) (info : Info) (content : String) (children : List Draft)

namespace Draft

def kind : Draft → NodeKind
  | mk k _ _ _ => k

def info : Draft → Info
  | mk _ i _ _ => i

def name (d : Draft) : String := d.info.name

def content : Draft → String
  | mk _ _ c _ => c

def children : Draft → List Draft
  | mk _ _ _ ds => ds

mutual

/-- The node that a draft describes. Of children with one name the last counts. -/
def toNode : Draft → Node
  | mk .file i c _ => .file i c
  | mk .dir i _ ds => .dir i (toNodes [] ds)

def toNodes (done : List Node) : List Draft → List Node
  | [] => done
  | d :: ds => toNodes (Keyed.insert Node.name (toNode d) done) ds

end

end Draft

structure UserDraft where
  username : String
  primaryGroup : String
  supplemental : List String
  home : String

def UserDraft.toAccount (u : UserDraft) : Account :=
  Account.create u.username u.primaryGroup (Roster.ofList u.supplemental) u.home

/-- The fields that may be left out are optional. -/
structure Snapshot where
  version : Int
  tree : Draft
  cwd : Option String
  username : Option String
  users : Option (List UserDraft)
  groups : Option (List String)

def Snapshot.currentVersion : Int := 1

def Info.toFields (i : Info) (kind : NodeKind) : List (String × Json) :=
  [("name", .string i.name), ("type", .string kind.text), ("permissions", .string i.permissions),
    ("owner", .string i.owner), ("group", .string i.group), ("modified_at", .float i.modified)]

mutual

def Node.toJson : Node → Json
  | .file i c => .object (i.toFields .file ++ [("content", .string c)])
  | .dir i es => .object (i.toFields .dir ++ [("children", .array (Node.toJsonList es))])

def Node.toJsonList : List Node → List Json
  | [] => []
  | e :: es => Node.toJson e :: Node.toJsonList es

end

def namesToJson (names : Names) : Json := .array (names.members.map .string)

def Account.toJson (a : Account) : Json :=
  .object [("username", .string a.username), ("primary_group", .string a.primaryGroup),
    ("supplemental_groups", namesToJson a.supplemental), ("home", .string a.home)]

def Session.snapshot (s : Session) : Json :=
  .object [("version", .int Snapshot.currentVersion), ("tree", s.root.toJson), ("cwd", .string s.cwd),
    ("username", .string s.username), ("users", .array (s.accounts.members.map Account.toJson)),
    ("groups", namesToJson s.groups)]

end VirtualShell
