import VirtualShell.Decimal.Exact
import VirtualShell.Decimal.Numeral
import VirtualShell.Snapshot.Model

/-!
# Reading snapshots

Fields are read in the order of their declaration, and the first fault ends the reading. Numbers
may be given as truth values or as texts.
-/
namespace VirtualShell
set_option autoImplicit false

namespace Draft

abbrev Place := List String

abbrev Read (α : Type) := Except SnapshotDefect α

def faultAt {α : Type} (place : Place) (fault : FieldFault) : Read α := .error (.field place fault)

def text (place : Place) : Json → Read String
  | .string s => .ok s
  | _ => faultAt place .notText

def nonemptyText (place : Place) (j : Json) : Read String := do
  let s ← text place j
  if s == "" then faultAt place .tooShort else return s

/-- Nine letters, each its own or a dash. -/
def isPermissions (s : String) : Bool :=
  let cs := s.toList
  cs.length == 9 && (cs.zip "rwxrwxrwx".toList).all fun (c, letter) => c == letter || c == '-'

def permissionText (place : Place) (j : Json) : Read String := do
  let s ← text place j
  if isPermissions s then return s else faultAt place .permissions

def kindText (place : Place) : Json → Read NodeKind
  | .string s =>
    match NodeKind.ofText? s with
    | some k => .ok k
    | none => faultAt place .kind
  | _ => faultAt place .kind

/-- A number text without its underscores, each of which stands between two characters. -/
def dropUnderscores? (cs : List Char) : Option (List Char) :=
  let doubled := (cs.zip (cs.drop 1)).any fun (a, b) => a == '_' && b == '_'
  if cs.head? == some '_' || cs.getLast? == some '_' || doubled then none
  else some (cs.filter (· != '_'))

def digits? (cs : List Char) : Option Nat :=
  if cs.isEmpty || !cs.all Char.isDigit then none
  else some (cs.foldl (fun n c => 10 * n + (c.toNat - 0x30)) 0)

def signed? {α : Type} (negate : α → α) (read : List Char → Option α) : List Char → Option α
  | '-' :: cs => (read cs).map negate
  | '+' :: cs => read cs
  | cs => read cs

/-- Digits with a point anywhere among them and perhaps an exponent. -/
def decimal? (cs : List Char) : Option Float := do
  let word := cs.map Char.toLower
  if word == "inf".toList || word == "infinity".toList then return (1.0 / 0.0)
  if word == "nan".toList then return (0.0 / 0.0)
  let number := cs.takeWhile fun c => c != 'e' && c != 'E'
  let whole := number.takeWhile (· != '.')
  let places := (number.dropWhile (· != '.')).drop 1
  let mantissa ← digits? (whole ++ places)
  match cs.dropWhile fun c => c != 'e' && c != 'E' with
  | [] => return Decimal.nearestFloat mantissa (-(places.length : Int))
  | _ :: cs =>
    let power : Int ← signed? (fun n => -n) (fun cs => (digits? cs).map Int.ofNat) cs
    return Decimal.nearestFloat mantissa (power - places.length)

/-- The value of a number text. It may stand among blanks or have underscores, but not both. -/
def floatText? (s : String) : Option Float :=
  let read := signed? (fun x => -x) decimal?
  (read (Decimal.trim s.toList)).or ((dropUnderscores? s.toList).bind read)

/-- A whole number text may end in a point and zeros. -/
def dropZeroPlaces (cs : List Char) : List Char :=
  match cs.dropWhile (· != '.') with
  | '.' :: places => if !places.isEmpty && places.all (· == '0') then cs.takeWhile (· != '.') else cs
  | _ => cs

/-- What is behind the zeros and underscores at the front. Where nothing is, the last of them stays. -/
def dropZerosFrom (last : Char) : List Char → Option (List Char)
  | [] => some [last]
  | '.' :: cs => some (last :: '.' :: cs)
  | c :: cs =>
    if c == '0' || c == '_' then dropZerosFrom c cs
    else if c == '-' || c.isDigit then some (c :: cs)
    else none

def dropZeros? : List Char → Option (List Char)
  | '0' :: cs => dropZerosFrom '0' cs
  | c :: cs => if c.isDigit then some (c :: cs) else none
  | [] => none

/-- The digits of a whole number text, without what a strict numeral may not have. -/
def numeral? (cs : List Char) : Option (List Char) := do
  let cs ← dropZeros? cs
  dropUnderscores? (dropZeroPlaces cs)

def strictDigits? (cs : List Char) : Option Int :=
  if cs.head? == some '0' && cs != ['0'] then none else (digits? cs).map Int.ofNat

def strictInteger? : List Char → Option Int
  | '-' :: cs => (strictDigits? cs).map fun n => -n
  | cs => strictDigits? cs

def integerText? (s : String) : Option Int :=
  match Decimal.trim s.toList with
  | '-' :: cs => (numeral? cs).bind fun cs => strictInteger? ('-' :: cs)
  | '+' :: cs => (numeral? cs).bind strictInteger?
  | cs => (numeral? cs).bind strictInteger?

/-- A whole number that is not beyond all others. -/
def wholeNumber? (n : Int) : Option Float :=
  let x := if n < 0 then -(Decimal.nearestFloat n.natAbs 0) else Decimal.nearestFloat n.natAbs 0
  if x.isFinite then some x else none

def number (place : Place) : Json → Read Float
  | .float x => .ok x
  | .int n =>
    match wholeNumber? n with
    | some x => .ok x
    | none => faultAt place .notNumber
  | .bool b => .ok (if b then 1.0 else 0.0)
  | .string s =>
    match floatText? s with
    | some x => .ok x
    | none => faultAt place .numberText
  | _ => faultAt place .notNumber

def integer (place : Place) : Json → Read Int
  | .int n => .ok n
  | .bool b => .ok (if b then 1 else 0)
  | .float x =>
    let exact := Exact.ofFloat x
    match exact.truncate? with
    | none => faultAt place .notFinite
    | some n =>
      if !exact.isWhole then faultAt place .fractional
      else if n.natAbs < twoTo 63 then .ok n
      else faultAt place .integerTooLarge
  | .string s =>
    match integerText? s with
    | some n => .ok n
    | none => faultAt place .integerText
  | _ => faultAt place .notInteger

def required {α : Type} (fields : List (String × Json)) (place : Place) (key : String)
    (read : Place → Json → Read α) : Read α :=
  match Json.Fields.get? fields key with
  | some j => read (place ++ [key]) j
  | none => faultAt (place ++ [key]) .required

def defaulted {α : Type} (fields : List (String × Json)) (place : Place) (key : String) (default : α)
    (read : Place → Json → Read α) : Read α :=
  match Json.Fields.get? fields key with
  | some j => read (place ++ [key]) j
  | none => .ok default

def optional {α : Type} (fields : List (String × Json)) (place : Place) (key : String)
    (read : Place → Json → Read α) : Read (Option α) :=
  match Json.Fields.get? fields key with
  | none | some .null => .ok none
  | some j => some <$> read (place ++ [key]) j

def readItems {α : Type} (read : Place → Json → Read α) (place : Place) (i : Nat) : List Json → Read (List α)
  | [] => .ok []
  | j :: js => do
    let x ← read (place ++ [toString i]) j
    let xs ← readItems read place (i + 1) js
    return x :: xs

def list {α : Type} (read : Place → Json → Read α) (place : Place) : Json → Read (List α)
  | .array js => readItems read place 0 js
  | _ => faultAt place .notList

/-- The first fault among the names of the children of a directory called `parent`. -/
def childFault? (parent : String) (seen : List String) : List Draft → Option RuleFault
  | [] => none
  | d :: ds =>
    if seen.contains d.name then some (.duplicateEntry d.name parent)
    else if d.name.toList.contains '/' || d.name == "." || d.name == ".." then some (.badEntryName d.name)
    else childFault? parent (d.name :: seen) ds

def ruleFault? (d : Draft) : Option RuleFault :=
  if d.kind == .file && !d.children.isEmpty then some (.fileWithChildren d.name)
  else if d.kind == .dir && d.content != "" then some (.directoryWithContent d.name)
  else childFault? d.name [] d.children

def checked (place : Place) (d : Draft) : Read Draft :=
  match d.ruleFault? with
  | some fault => .error (.rule place fault)
  | none => .ok d

mutual

/-- Reads a node; there is room for so many nodes inside of one another, whatever stands below them. -/
def read : Nat → Place → Json → Read Draft
  | 0, place, _ => faultAt place .tooDeep
  | room + 1, place, .object fields => do
    let name ← required fields place "name" nonemptyText
    let kind ← required fields place "type" kindText
    let permissions ← required fields place "permissions" permissionText
    let owner ← required fields place "owner" nonemptyText
    let group ← required fields place "group" nonemptyText
    let modified ← defaulted fields place "modified_at" 0.0 number
    let content ← defaulted fields place "content" "" text
    let children ← readChildrenOf room place fields
    checked place (.mk kind { name, permissions, owner, group, modified } content children)
  | _ + 1, place, _ => faultAt place .notNode

def readChildrenOf (room : Nat) (place : Place) : List (String × Json) → Read (List Draft)
  | [] => .ok []
  | (key, j) :: fields =>
    if key == "children" then readChildren room (place ++ ["children"]) j else readChildrenOf room place fields

def readChildren (room : Nat) (place : Place) : Json → Read (List Draft)
  | .array js => readChildrenFrom room place 0 js
  | _ => faultAt place .notList

def readChildrenFrom (room : Nat) (place : Place) (i : Nat) : List Json → Read (List Draft)
  | [] => .ok []
  | j :: js => do
    let d ← read room (place ++ [toString i]) j
    let ds ← readChildrenFrom room place (i + 1) js
    return d :: ds

end

end Draft

namespace Snapshot

def readUser (place : Draft.Place) : Json → Draft.Read UserDraft
  | .object fields => do
    let username ← Draft.required fields place "username" Draft.nonemptyText
    let primaryGroup ← Draft.required fields place "primary_group" Draft.nonemptyText
    let supplemental ← Draft.defaulted fields place "supplemental_groups" [] (Draft.list Draft.text)
    let home ← Draft.defaulted fields place "home" "" Draft.text
    return { username, primaryGroup, supplemental, home }
  | _ => Draft.faultAt place .notUser

def leadsToDirectory (d : Draft) : List String → Bool
  | [] => true
  | p :: ps =>
    match d.children.find? fun c => c.name == p with
    | some c => c.kind == .dir && leadsToDirectory c ps
    | none => false

def isDirectory (tree : Draft) (path : String) : Bool :=
  path.toList.head? == some '/' && leadsToDirectory tree (Path.split path)

def groupFault? (groups : Names) : List UserDraft → Option RuleFault
  | [] => none
  | u :: us =>
    match (u.toAccount.groups).minus groups with
    | [] => groupFault? groups us
    | missing => some (.unknownGroups u.username missing)

def userFault? (s : Snapshot) (users : List UserDraft) : Option RuleFault :=
  let names := users.map UserDraft.username
  if !names.Nodup then some .duplicateUsers
  else
    match s.username.filter fun u => !names.contains u with
    | some u => some (.unknownUser u)
    | none => s.groups.bind fun groups => groupFault? (Roster.ofList groups) users

def ruleFault? (s : Snapshot) : Option RuleFault :=
  if s.tree.kind != .dir || s.tree.name != "/" then some .badRoot
  else
    match s.cwd.filter fun cwd => !isDirectory s.tree cwd with
    | some cwd => some (.badDirectory cwd)
    | none => s.users.bind s.userFault?

/-- How many nodes of a tree may stand inside of one another, the root and the last one counted. -/
def deepest : Nat := 254

def readWithin (room : Nat) : Json → Draft.Read Snapshot
  | .object fields =>
    if !Json.Fields.contains fields "tree" then .error .noTree
    else do
      let version ← Draft.defaulted fields [] "version" currentVersion Draft.integer
      let tree ← Draft.required fields [] "tree" (Draft.read room)
      let cwd ← Draft.optional fields [] "cwd" Draft.text
      let username ← Draft.optional fields [] "username" Draft.text
      let users ← Draft.optional fields [] "users" (Draft.list readUser)
      let groups ← Draft.optional fields [] "groups" (Draft.list Draft.text)
      let s : Snapshot := { version, tree, cwd, username, users, groups }
      match s.ruleFault? with
      | some fault => .error (.rule [] fault)
      | none => return s
  | _ => .error .notAnObject

def read (blob : Json) : Draft.Read Snapshot := readWithin deepest blob

end Snapshot

end VirtualShell
