/-! # Values of the data notation that saves are written in -/
namespace VirtualShell
set_option autoImplicit false

/-- Whole numbers are exact and stay apart from fractions; the fields of an object keep their order. -/
inductive Json where
  | null
  | bool (b : Bool)
  | int (n : Int)
  | float (x : Float)
  | string (s : String)
  | array (items : List Json)
  | object (fields : List (String × Json))
  deriving Inhabited

namespace Json

abbrev Fields := List (String × Json)

def Fields.get? (fields : Fields) (key : String) : Option Json :=
  (fields.find? fun f => f.1 == key).map Prod.snd

def Fields.contains (fields : Fields) (key : String) : Bool := fields.any fun f => f.1 == key

/-- Sets a field: in its place when there is one of that name, else at the end. -/
def Fields.put (fields : Fields) (key : String) (value : Json) : Fields :=
  match fields with
  | [] => [(key, value)]
  | f :: fs => if f.1 == key then (key, value) :: fs else f :: Fields.put fs key value

def get? (j : Json) (key : String) : Option Json :=
  match j with
  | .object fields => Fields.get? fields key
  | _ => none

end Json

end VirtualShell
