import VirtualShell.Session.Remove

/-!
# Accounts and groups

Only the administrator changes them. An account and its home directory are made and deleted one
after the other.
-/
namespace VirtualShell.Session
set_option autoImplicit false

def requireAdmin (s : Session) (command : String) : Except Fault Unit :=
  if s.subject.isAdmin then .ok () else refuse (.adminOnly command)

/-- All groups must be known; a complaint names the first that is not. -/
def requireGroups (s : Session) (groups : Names) : Except Fault Unit :=
  match groups.minus s.groups with
  | [] => .ok ()
  | g :: _ => refuse (.noSuchGroup g)

def requirePrimary (s : Session) : Option String → Except Fault Unit
  | some group => if s.groups.contains group then .ok () else refuse (.noSuchGroup group)
  | none => .ok ()

def addGroup (name : String) : Update String := do
  let s ← Update.session
  s.requireAdmin "groupadd"
  if !isAccountName name then refuse (.badGroupName name)
  else if s.groups.contains name then refuse (.groupExists name)
  else
    Update.write fun s => { s with groups := s.groups.add name }
    return name

/-- The primary group of a new account; one that is not given has the name of the account. -/
def primaryOr (primary : Option String) (username : String) : String :=
  match primary with
  | some "" | none => username
  | some group => group

def addHome (s : Session) (username group : String) : Session :=
  if ((s.lookup "/home").bind (·.child? username)).isSome then s
  else
    let info : Info :=
      { name := username, permissions := "rwxr-xr-x", owner := username, group, modified := s.now }
    s.addEntry "/home" (.dir info [])

/-- Makes an account, its group and, on demand, its home directory. -/
def addUser (username : String) (groups : List String) (primary : Option String) (createHome : Bool) :
    Update Account := do
  let s ← Update.session
  s.requireAdmin "useradd"
  if !isAccountName username then refuse (.badUserName username)
  else if s.accounts.contains username then refuse (.userExists username)
  else
    let supplemental : Names := Roster.ofList groups
    s.requireGroups supplemental
    s.requirePrimary primary
    if createHome && !s.isDirectory "/home" then refuse (.obstructed (.reach "/home") .missing)
    else
      let group := primaryOr primary username
      let account := Account.create username group supplemental ("/home/" ++ username)
      Update.write fun s => { s with groups := s.groups.add group, accounts := s.accounts.insert account }
      Update.write fun s => if createHome then s.addHome username group else s
      return account

def changeGroups (username : String) (groups : List String) (append : Bool) : Update Account := do
  let s ← Update.session
  s.requireAdmin "usermod"
  match s.accounts.find? username with
  | none => refuse (.noSuchUser username)
  | some account =>
    let wanted : Names := Roster.ofList groups
    s.requireGroups wanted
    let changed :=
      { account with supplemental := if append then account.supplemental.union wanted else wanted }
    Update.write fun s => { s with accounts := s.accounts.insert changed }
    return changed

def deletable (s : Session) (username : String) (removeHome : Bool) : Except Fault (Account × Bool) := do
  s.requireAdmin "userdel"
  match s.accounts.find? username with
  | none => refuse (.noSuchUser username)
  | some account =>
    if username == adminName || s.activeUsers.contains username then refuse (.loggedIn username)
    else if removeHome && (account.home == "/" || account.home == "") then refuse (.protectedHome account.home)
    else
      let present := removeHome && (s.lookup account.home).isSome
      if present && Path.isWithin s.cwd account.home then refuse (.homeInUse account.home)
      else return (account, present)

def dropOwnGroup (s : Session) (account : Account) : Session :=
  if account.primaryGroup == account.username &&
      !s.accounts.members.any fun a => a.groups.contains account.primaryGroup then
    { s with groups := s.groups.erase account.username }
  else s

def detachHome (account : Account) (present : Bool) : Update Unit :=
  if present then detach account.home else pure ()

def deleteUser (username : String) (removeHome : Bool) : Update String := do
  let s ← Update.session
  let (account, homePresent) ← s.deletable username removeHome
  Update.write fun s => { s with accounts := s.accounts.erase username }
  detachHome account homePresent
  Update.write (·.dropOwnGroup account)
  return username

end VirtualShell.Session
