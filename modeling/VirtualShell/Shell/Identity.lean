import VirtualShell.Line.Options
import VirtualShell.Session.Accounts
import VirtualShell.Session.Elevation
import VirtualShell.Session.Inspect
import VirtualShell.Shell.Act

/-! # Users and groups from the command line -/
namespace VirtualShell.Identity
set_option autoImplicit false

def silently {α : Type} (command : String) (operation : Update α) : Act Reply := do
  match ← Act.attempt operation with
  | .ok _ => return .silent
  | .error r => return .refused command r

def pwd : Act Reply := do return .ofText (← get).cwd

def cd (c : Call) : Act Reply :=
  match c.args with
  | [] => silently "cd" (Session.changeDirectory none)
  | [path] => silently "cd" (Session.changeDirectory (some path))
  | _ => return .badArgument "cd: too many arguments"

def whoami : Act Reply := do return .ofText (← get).username

def groupList (a : Account) : List String :=
  a.primaryGroup :: a.supplemental.members.filter (· != a.primaryGroup)

def describe (command : String) (c : Call) (text : Account → String) : Act Reply := do
  let s ← get
  let username := c.args.head?.getD s.username
  match s.accounts.find? username with
  | some account => return .ofText (text account)
  | none => return .error (command ++ ": '" ++ username ++ "': no such user") .notFound

def id (c : Call) : Act Reply :=
  describe "id" c fun a =>
    "uid=" ++ a.username ++ " gid=" ++ a.primaryGroup ++ " groups=" ++ ",".intercalate (groupList a)

def groups (c : Call) : Act Reply :=
  describe "groups" c fun a =>
    let names := " ".intercalate (groupList a)
    if c.args.isEmpty then names else a.username ++ " : " ++ names

def su (c : Call) : Act Reply :=
  silently "su" do
    let username ← Session.switchUser (c.args.head?.getD adminName)
    Update.write (·.goHome)
    return username

def groupadd (c : Call) : Act Reply :=
  match c.args with
  | [name] => silently "groupadd" (Session.addGroup name)
  | _ => return .badArgument "usage: groupadd GROUP"

def splitGroups (text : String) : List String :=
  let (names, last) := text.toList.foldr
    (fun c (names, name) => if c == ',' then (name :: names, []) else (names, c :: name)) ([], [])
  ((last :: names).filter (!·.isEmpty)).map String.ofList

def lacksValue (command : String) (letter : Char) : Reply :=
  .badArgument (command ++ ": option requires an argument -- '" ++ String.singleton letter ++ "'")

def valueOf? (options : Line.Flags) (name : String) : Option String :=
  match options.value? name with
  | some (.value text) => some text
  | _ => none

def useradd (c : Call) : Act Reply :=
  match Line.readOptions ['g', 'G'] c.words with
  | .error letter => return lacksValue "useradd" letter
  | .ok (options, [username]) =>
    silently "useradd"
      (Session.addUser username (splitGroups ((valueOf? options "G").getD "")) (valueOf? options "g") true)
  | .ok _ => return .badArgument "usage: useradd [-g GROUP] [-G GROUPS] NAME"

def usermod (c : Call) : Act Reply :=
  match Line.readOptions ['G'] c.words with
  | .error letter => return lacksValue "usermod" letter
  | .ok (options, operands) =>
    match operands, valueOf? options "G" with
    | [username], some groups =>
      silently "usermod" (Session.changeGroups username (splitGroups groups) (options.isOn "a"))
    | _, _ => return .badArgument "usage: usermod [-a] -G GROUPS NAME"

def userdel (c : Call) : Act Reply :=
  match c.args with
  | [username] =>
    silently "userdel" (Session.deleteUser username (c.isOn ["r", "remove"]))
  | _ => return .badArgument "usage: userdel [-r] NAME"

end VirtualShell.Identity
