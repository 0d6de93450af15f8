import VirtualShell.Decimal.Exact
import VirtualShell.Json.Reader
import VirtualShell.Json.Writer
import VirtualShell.Text.Blank

/-!
# Saved data

Data is saved inside of an envelope with a version and the time. Data without an envelope is known by
its fields.
-/
namespace VirtualShell.Save
set_option autoImplicit false

def version : Int := 1

def sessionKey : String := "filesystem"

/-- The fields that data without an envelope is known by. -/
def bareKeys : List String := ["completed", "score", sessionKey]

def milliseconds (now : Float) : Int := (Exact.ofFloat (now * 1000.0)).truncate?.getD 0

def envelope (now : Float) (data : Json) : Json :=
  .object [("version", .int version), ("saved_at", .int (milliseconds now)), ("data", data)]

def textOf (now : Float) (data : Json) : String := Json.write (envelope now data)

/-- Whether a version is the present one, in whatever way it is written. -/
def isVersion : Json → Bool
  | .int n => n == version
  | .float x => x == 1.0
  | .bool b => b
  | _ => false

def contents? : Json → Option Json.Fields
  | .object fields =>
    match Json.Fields.get? fields "version", Json.Fields.get? fields "data" with
    | some v, some (.object data) =>
      if isVersion v then some data else if bareKeys.any (Json.Fields.contains fields) then some fields else none
    | _, _ => if bareKeys.any (Json.Fields.contains fields) then some fields else none
  | _ => none

inductive Loaded where
  | nothing
  | data (fields : Json.Fields)
  /-- The text is no data at all. -/
  | corrupt

def read (text : String) : Loaded :=
  if (Text.trim text.toList).isEmpty then .nothing
  else
    match Json.read? text with
    | none => .corrupt
    | some j =>
      match contents? j with
      | some fields => .data fields
      | none => .nothing

end VirtualShell.Save
