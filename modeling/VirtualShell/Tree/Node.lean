import VirtualShell.Keyed
import VirtualShell.Path

/-!
# The tree

A node is a file with its content or a directory with its entries, which stand in the order of
their names. `get?` looks a node up along a list of names, `modify` changes the one it finds.
-/
namespace VirtualShell
set_option autoImplicit false

structure Info where
  name : String
  permissions : String
  owner : String
  group : String
  modified : Float

inductive NodeKind where
  | file
  | dir
  deriving DecidableEq, Repr

def NodeKind.text : NodeKind → String
  | file => "file"
  | dir => "dir"

def NodeKind.ofText? (text : String) : Option NodeKind :=
  if text == "file" then some .file else if text == "dir" then some .dir else none

inductive Node where
  | file (info : Info) (content : String)
  | dir (info : Info) (entries : List Node)

namespace Node

def info : Node → Info
  | file i _ => i
  | dir i _ => i

def name (n : Node) : String := n.info.name

def kind : Node → NodeKind
  | file .. => .file
  | dir .. => .dir

def isDir : Node → Bool
  | file .. => false
  | dir .. => true

def entries : Node → List Node
  | file .. => []
  | dir _ es => es

def content : Node → String
  | file _ c => c
  | dir .. => ""

def mapInfo (f : Info → Info) : Node → Node
  | file i c => file (f i) c
  | dir i es => dir (f i) es

def rename (name : String) (n : Node) : Node := n.mapInfo fun i => { i with name := name }

def touch (time : Float) (n : Node) : Node := n.mapInfo fun i => { i with modified := time }

def setContent (content : String) : Node → Node
  | file i _ => file i content
  | dir i es => dir i es

def size : Node → Nat
  | file _ c => c.utf8ByteSize
  | dir .. => 4096

def child? (n : Node) (name : String) : Option Node := Keyed.find? Node.name name n.entries

def mapEntries (f : List Node → List Node) : Node → Node
  | file i c => file i c
  | dir i es => dir i (f es)

def putEntry (n e : Node) : Node := n.mapEntries (Keyed.insert Node.name e)

def dropEntry (name : String) (n : Node) : Node := n.mapEntries (Keyed.erase Node.name name)

def get? (n : Node) : List String → Option Node
  | [] => some n
  | p :: ps => (n.child? p).bind (get? · ps)

/-- Changes the node at the end of a chain of names; without such a node nothing changes. -/
def modify (f : Node → Node) : List String → Node → Node
  | [], n => f n
  | p :: ps, n => n.mapEntries (List.map fun e => if e.name == p then modify f ps e else e)

mutual

def mapAll (f : Info → Info) : Node → Node
  | file i c => file (f i) c
  | dir i es => dir (f i) (mapAllList f es)

def mapAllList (f : Info → Info) : List Node → List Node
  | [] => []
  | e :: es => mapAll f e :: mapAllList f es

end

mutual

/-- The nodes of a subtree with their paths, each directory before its entries. -/
def walk (path : String) : Node → List (String × Node)
  | file i c => [(path, file i c)]
  | dir i es => (path, dir i es) :: walkList path es

def walkList (path : String) : List Node → List (String × Node)
  | [] => []
  | e :: es => walk (Path.join path e.name) e ++ walkList path es

end

end Node

end VirtualShell
