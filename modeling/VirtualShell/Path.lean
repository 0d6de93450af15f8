/-!
# Paths

A path is a text. Its parts are the pieces between slashes that are not empty; a canonical path is
written back from its parts, none of which is `.` or `..`. `resolve` brings every path into that
form without a look at the tree.
-/
namespace VirtualShell.Path
set_option autoImplicit false

def pieces (path : String) : List String := (path.toList.splitOn '/').map String.ofList

def split (path : String) : List String := (pieces path).filter (· != "")

def ofParts (parts : List String) : String := "/" ++ String.intercalate "/" parts

def join (parent name : String) : String := if parent == "/" then "/" ++ name else parent ++ "/" ++ name

def parentOf (path : String) : String := ofParts (split path).dropLast

/-- The last part; that of the root is the slash. -/
def baseName (path : String) : String := (split path).getLast?.getD "/"

/-- Whether `path` is `ancestor` or lies below it. -/
def isWithin (path ancestor : String) : Bool :=
  ancestor == "/" || path == ancestor || (ancestor.toList ++ ['/']).isPrefixOf path.toList

/-- Follows one piece from a place given by its parts in reverse. -/
def follow (place : List String) (piece : String) : List String :=
  if piece == "" || piece == "." then place
  else if piece == ".." then place.tail
  else piece :: place

def expandHome (home path : String) : String :=
  match path.toList with
  | '~' :: [] => home
  | '~' :: '/' :: cs => home ++ String.ofList ('/' :: cs)
  | _ => path

/-- The path that `raw` means in the directory `cwd`. No text means the directory itself. -/
def resolve (home cwd : String) (raw : Option String) : String :=
  match raw with
  | none => cwd
  | some raw =>
    if raw == "" then cwd
    else
      let path := expandHome home raw
      let start := if path.toList.head? == some '/' then [] else (split cwd).reverse
      ofParts ((pieces path).foldl follow start).reverse

def isPart (part : String) : Bool :=
  part != "" && part != "." && part != ".." && !part.toList.contains '/'

/-- Starts with a slash, has no empty, `.` or `..` part, and ends in no slash but the root's. -/
def isCanonical (path : String) : Bool := ofParts (split path) == path && (split path).all isPart

/-- Characters that no new name may have: markup, quotes, what the shell reads, and controls. -/
def isUnsafe (c : Char) : Bool :=
  ['<', '>', '\x22', '\x27', '\x60', '|', ';', '&', '$', '\x5c'].contains c || c.toNat < 0x20 ||
    c.toNat == 0x7f

def hasUnsafe (text : String) : Bool := text.toList.any isUnsafe

/-- The path to create or write at. It has no unsafe character and no `..`, and is not the root. -/
def forWriting (home cwd : String) (raw : Option String) : Option String :=
  match raw with
  | none => none
  | some text =>
    if text == "" || hasUnsafe text || (pieces text).contains ".." then none
    else
      let path := resolve home cwd raw
      if path == "/" then none else some path

end VirtualShell.Path
