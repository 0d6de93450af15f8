import VirtualShell.Text.Quoted

/-! # What can be wrong with a snapshot -/
namespace VirtualShell
set_option autoImplicit false

/-- What is wrong with the form of one field. -/
inductive FieldFault where
  | required
  | notText
  | tooShort
  | permissions
  | kind
  | notList
  | notNode
  | notUser
  | notNumber
  | numberText
  | notInteger
  | integerText
  | fractional
  | notFinite
  | integerTooLarge
  | tooDeep
  deriving DecidableEq, Repr

def FieldFault.message : FieldFault → String
  | required => "Field required"
  | notText => "Input should be a valid string"
  | tooShort => "String should have at least 1 character"
  | permissions => "String should match pattern '^[r-][w-][x-][r-][w-][x-][r-][w-][x-]$'"
  | kind => "Input should be 'file' or 'dir'"
  | notList => "Input should be a valid list"
  | notNode => "Input should be a valid dictionary or instance of SnapshotNode"
  | notUser => "Input should be a valid dictionary or instance of SnapshotUser"
  | notNumber => "Input should be a valid number"
  | numberText => "Input should be a valid number, unable to parse string as a number"
  | notInteger => "Input should be a valid integer"
  | integerText => "Input should be a valid integer, unable to parse string as an integer"
  | fractional => "Input should be a valid integer, got a number with a fractional part"
  | notFinite => "Input should be a finite number"
  | integerTooLarge => "Unable to parse input string as an integer, exceeded maximum size"
  | tooDeep => "Recursion error - cyclic reference detected"

/-- What is wrong with well-formed fields taken together. -/
inductive RuleFault where
  | fileWithChildren (name : String)
  | directoryWithContent (name : String)
  | duplicateEntry (name parent : String)
  | badEntryName (name : String)
  | badRoot
  | badDirectory (cwd : String)
  | duplicateUsers
  | unknownUser (username : String)
  | unknownGroups (username : String) (groups : List String)
  deriving DecidableEq, Repr

def RuleFault.text : RuleFault → String
  | fileWithChildren name => "file '" ++ name ++ "' cannot have children"
  | directoryWithContent name => "directory '" ++ name ++ "' cannot have content"
  | duplicateEntry name parent => "duplicate entry '" ++ name ++ "' in '" ++ parent ++ "'"
  | badEntryName name => "invalid entry name '" ++ name ++ "'"
  | badRoot => "snapshot tree must be rooted at a directory named '/'"
  | badDirectory cwd => "working directory '" ++ cwd ++ "' is not a directory in the tree"
  | duplicateUsers => "duplicate user records"
  | unknownUser username => "unknown session user '" ++ username ++ "'"
  | unknownGroups username groups =>
    "user '" ++ username ++ "' references unknown group(s) " ++ Text.quotedList groups

/-- The first defect of a snapshot, with the way to the place where it is. -/
inductive SnapshotDefect where
  | notAnObject
  | noTree
  | field (place : List String) (fault : FieldFault)
  | rule (place : List String) (fault : RuleFault)
  /-- The snapshot is sound, but its user is not among the accounts. -/
  | noSuchSession (username : String)
  deriving DecidableEq, Repr

def placed (place : List String) (text : String) : String :=
  if place.isEmpty then text else String.intercalate "." place ++ ": " ++ text

def SnapshotDefect.message : SnapshotDefect → String
  | notAnObject => "invalid snapshot: expected an object"
  | noTree => "invalid snapshot: missing filesystem tree"
  | field place fault => "invalid snapshot: " ++ placed place fault.message
  | rule place fault => "invalid snapshot: " ++ placed place ("Value error, " ++ fault.text)
  | noSuchSession username => "invalid snapshot: unknown session user '" ++ username ++ "'"

end VirtualShell
