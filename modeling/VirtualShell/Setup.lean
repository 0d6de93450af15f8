import VirtualShell.Decimal.Numeral
import VirtualShell.Seed
import VirtualShell.Snapshot.Model

/-!
# Starting from a description

A tree of one's own is described by data in which ages may stand for times. Fields that must be
there are asked for in order; the first that is missing ends the reading.
-/
namespace VirtualShell.Setup
set_option autoImplicit false

structure MissingField where
  key : String
  deriving DecidableEq, Repr

abbrev Read (α : Type) := Except MissingField α

def field (j : Json) (key : String) : Read Json :=
  match j.get? key with
  | some value => .ok value
  | none => .error ⟨key⟩

def textOf : Json → String
  | .string s => s
  | _ => ""

def text (j : Json) (key : String) : Read String := textOf <$> field j key

def numberOf : Json → Float
  | .int n => if n < 0 then -(Decimal.nearestFloat n.natAbs 0) else Decimal.nearestFloat n.natAbs 0
  | .float x => x
  | _ => 0.0

def isDirectory (type : Json) : Bool := textOf type == "dir"

def stampFields (now : Float) (fields : List (String × Json)) : Json.Fields :=
  let rest := fields.filter fun f => f.1 != "age" && f.1 != "children"
  let time : Json := match Json.Fields.get? fields "age" with
    | some age => .float (now - numberOf age)
    | none => (Json.Fields.get? fields "modified_at").getD (.float now)
  Json.Fields.put rest "modified_at" time

mutual

def stamp (now : Float) : Json → Read Json
  | .object fields => do
    let type ← field (.object fields) "type"
    let stamped := stampFields now fields
    if isDirectory type then
      let children ← stampChildrenOf now fields
      return .object (Json.Fields.put stamped "children" (.array children))
    else return .object stamped
  | _ => .error ⟨"type"⟩

def stampChildrenOf (now : Float) : List (String × Json) → Read (List Json)
  | [] => .ok []
  | (key, j) :: fields => if key == "children" then stampChildren now j else stampChildrenOf now fields

def stampChildren (now : Float) : Json → Read (List Json)
  | .array js => stampList now js
  | _ => .ok []

def stampList (now : Float) : List Json → Read (List Json)
  | [] => .ok []
  | j :: js => do
    let x ← stamp now j
    let xs ← stampList now js
    return x :: xs

end

mutual

def node : Json → Read Node
  | .object fields => do
    let j := Json.object fields
    let name ← text j "name"
    let type ← field j "type"
    let permissions ← text j "permissions"
    let owner ← text j "owner"
    let group ← text j "group"
    let modified := numberOf ((j.get? "modified_at").getD .null)
    let info : Info := { name, permissions, owner, group, modified }
    if isDirectory type then return .dir info (← nodesOf fields)
    else return .file info (textOf ((j.get? "content").getD .null))
  | _ => .error ⟨"name"⟩

def nodesOf : List (String × Json) → Read (List Node)
  | [] => .ok []
  | (key, j) :: fields => if key == "children" then nodesIn j else nodesOf fields

def nodesIn : Json → Read (List Node)
  | .array js => nodes [] js
  | _ => .ok []

def nodes (done : List Node) : List Json → Read (List Node)
  | [] => .ok done
  | j :: js => do
    let n ← node j
    nodes (Keyed.insert Node.name n done) js

end

def texts : Json → List String
  | .array js => js.map textOf
  | _ => []

def account (j : Json) : Read Account := do
  let username ← text j "username"
  let primaryGroup ← text j "primary_group"
  let supplemental : Names := Roster.ofList (texts ((j.get? "supplemental_groups").getD .null))
  return Account.create username primaryGroup supplemental (textOf ((j.get? "home").getD .null))

def accounts (js : List Json) : Read Accounts := do
  let found ← js.mapM account
  return Roster.ofList found

inductive Failure where
  | missing (field : MissingField)
  | unknownUser (username : String)
  deriving DecidableEq, Repr

def session (structure? : Option Json) (users? : Option (List Json)) (groups? : Option (List String))
    (username : String) (now : Float) : Except Failure Session := do
  let root ← match structure? with
    | some j => ((stamp now j) >>= node).mapError Failure.missing
    | none => pure (Seed.root now)
  let accounts ← match users? with
    | some js => (accounts js).mapError Failure.missing
    | none => pure Seed.accounts
  let groups : Names := match groups? with
    | some names => Roster.ofList names
    | none => Seed.groups
  match Session.start? root accounts groups username now with
  | some s => return s
  | none => .error (.unknownUser username)

end VirtualShell.Setup
