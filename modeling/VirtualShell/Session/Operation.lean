import VirtualShell.Session.Accounts
import VirtualShell.Session.Attributes
import VirtualShell.Session.Create
import VirtualShell.Session.Elevation
import VirtualShell.Session.Inspect
import VirtualShell.Session.Remove
import VirtualShell.Session.Transfer

/-! # Operations as values -/
namespace VirtualShell
set_option autoImplicit false

inductive Operation where
  | stat (path : PathArg)
  | list (path : PathArg) (hidden : Bool)
  | changeDirectory (path : PathArg)
  | read (path : PathArg)
  | createFile (path : PathArg) (content : String)
  | createDirectory (path : PathArg) (parents : Bool)
  | write (path : PathArg) (content : String) (append : Bool)
  | remove (path : PathArg) (recursive : Bool)
  | removeDirectory (path : PathArg)
  | move (source dest : PathArg)
  | copy (source dest : PathArg) (recursive : Bool)
  | changeMode (path : PathArg) (mode : String)
  | changeOwner (path : PathArg) (spec : String) (recursive : Bool)
  | addGroup (name : String)
  | addUser (username : String) (groups : List String) (primary : Option String) (createHome : Bool)
  | changeGroups (username : String) (groups : List String) (append : Bool)
  | deleteUser (username : String) (removeHome : Bool)
  | switchUser (username : String)
  deriving DecidableEq, Repr

inductive Answer where
  | text (s : String)
  | node (n : Node)
  | nodes (ns : List Node)
  | account (a : Account)

namespace Session

def steps : Operation → Update Answer
  | .stat path => .node <$> Update.look (·.stat path)
  | .list path hidden => .nodes <$> Update.look (·.list path hidden)
  | .changeDirectory path => .text <$> changeDirectory path
  | .read path => .text <$> Update.look (·.readFile path)
  | .createFile path content => .text <$> createFile path content
  | .createDirectory path parents => .text <$> createDirectory path parents
  | .write path content append => .text <$> writeFile path content append
  | .remove path recursive => .text <$> remove path recursive
  | .removeDirectory path => .text <$> removeDirectory path
  | .move source dest => .text <$> move source dest
  | .copy source dest recursive => .text <$> copy source dest recursive
  | .changeMode path mode => .text <$> changeMode path mode
  | .changeOwner path spec recursive => .text <$> changeOwner path spec recursive
  | .addGroup name => .text <$> addGroup name
  | .addUser username groups primary createHome => .account <$> addUser username groups primary createHome
  | .changeGroups username groups append => .account <$> changeGroups username groups append
  | .deleteUser username removeHome => .text <$> deleteUser username removeHome
  | .switchUser username => .text <$> switchUser username

def apply (s : Session) (o : Operation) : Except Fault Answer × Session := (steps o).run s

end Session

end VirtualShell
