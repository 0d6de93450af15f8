import VirtualShell.Json
import VirtualShell.Decimal.Numeral

/-!
# Reading data

`Json.read?` accepts one value with spaces around it. Of two fields with one name the later value
counts, in the place of the first. Strings hold no raw control characters.
-/
namespace VirtualShell.Json
set_option autoImplicit false

def skipSpace (cs : List Char) : List Char :=
  cs.dropWhile fun c => c == ' ' || c == '\t' || c == '\n' || c == '\r'

def hexValue? (c : Char) : Option Nat :=
  if c.isDigit then some (c.toNat - 0x30)
  else if 'a' ≤ c && c ≤ 'f' then some (c.toNat - 0x57)
  else if 'A' ≤ c && c ≤ 'F' then some (c.toNat - 0x37)
  else none

def unit? : List Char → Option (Nat × List Char)
  | a :: b :: c :: d :: cs => do
    let a ← hexValue? a
    let b ← hexValue? b
    let c ← hexValue? c
    let d ← hexValue? d
    some (((a * 16 + b) * 16 + c) * 16 + d, cs)
  | _ => none

/-- A character written by its code; two units of a pair make one. -/
def codedChar? (cs : List Char) : Option (Char × List Char) := do
  let (high, cs) ← unit? cs
  if 0xd800 ≤ high && high < 0xdc00 then
    match cs with
    | '\x5c' :: 'u' :: rest =>
      match unit? rest with
      | some (low, rest) =>
        if 0xdc00 ≤ low && low < 0xe000 then
          some (Char.ofNat (0x10000 + (high - 0xd800) * 0x400 + (low - 0xdc00)), rest)
        else some ('\ufffd', cs)
      | none => some ('\ufffd', cs)
    | _ => some ('\ufffd', cs)
  else if 0xdc00 ≤ high && high < 0xe000 then some ('\ufffd', cs)
  else some (Char.ofNat high, cs)

def plainEscape? (c : Char) : Option Char :=
  if c == '\x22' || c == '\x5c' || c == '/' then some c
  else if c == 'b' then some '\x08'
  else if c == 'f' then some '\x0c'
  else if c == 'n' then some '\n'
  else if c == 'r' then some '\r'
  else if c == 't' then some '\t'
  else none

def string? : Nat → List Char → List Char → Option (String × List Char)
  | 0, _, _ => none
  | _, _, [] => none
  | fuel + 1, done, c :: cs =>
    if c == '\x22' then some (String.ofList done.reverse, cs)
    else if c == '\x5c' then
      match cs with
      | 'u' :: cs => do
        let (d, cs) ← codedChar? cs
        string? fuel (d :: done) cs
      | e :: cs => do
        let d ← plainEscape? e
        string? fuel (d :: done) cs
      | [] => none
    else if c.toNat < 0x20 then none
    else string? fuel (c :: done) cs

def natOf (digits : List Char) : Nat := digits.foldl (fun n c => 10 * n + (c.toNat - 0x30)) 0

def fraction (cs : List Char) : List Char × List Char :=
  match cs with
  | '.' :: rest =>
    match rest.span Char.isDigit with
    | ([], _) => ([], cs)
    | found => found
  | _ => ([], cs)

def exponent? (cs : List Char) : Option (Int × List Char) :=
  match cs with
  | e :: rest =>
    if e == 'e' || e == 'E' then
      let (negative, rest) := match rest with
        | '-' :: rest => (true, rest)
        | '+' :: rest => (false, rest)
        | _ => (false, rest)
      match rest.span Char.isDigit with
      | ([], _) => none
      | (digits, rest) =>
        let n : Int := natOf digits
        some (if negative then -n else n, rest)
    else none
  | [] => none

def number? (cs : List Char) : Option (Json × List Char) :=
  let (negative, cs) := match cs with
    | '-' :: cs => (true, cs)
    | _ => (false, cs)
  let (whole, cs) := match cs with
    | '0' :: cs => (['0'], cs)
    | _ => cs.span Char.isDigit
  if whole.isEmpty then none
  else
    let (places, cs) := fraction cs
    let power := exponent? cs
    if places.isEmpty && power.isNone then
      let n : Int := natOf whole
      some (.int (if negative then -n else n), cs)
    else
      let (e, cs) := power.getD (0, cs)
      let x := Decimal.nearestFloat (natOf (whole ++ places)) (e - places.length)
      some (.float (if negative then -x else x), cs)

def literals : List (List Char × Json) :=
  [("null".toList, .null), ("true".toList, .bool true), ("false".toList, .bool false),
    ("NaN".toList, .float (0.0 / 0.0)), ("Infinity".toList, .float (1.0 / 0.0)),
    ("-Infinity".toList, .float (-1.0 / 0.0))]

def literal? (cs : List Char) : Option (Json × List Char) :=
  (literals.find? fun l => l.1.isPrefixOf cs).map fun l => (l.2, cs.drop l.1.length)

mutual

def value? : Nat → List Char → Option (Json × List Char)
  | 0, _ => none
  | fuel + 1, cs =>
    match cs with
    | '\x22' :: rest => (string? fuel [] rest).map fun (s, rest) => (.string s, rest)
    | '[' :: rest =>
      match skipSpace rest with
      | ']' :: rest => some (.array [], rest)
      | rest => (items? fuel [] rest).map fun (xs, rest) => (.array xs, rest)
    | '\x7b' :: rest =>
      match skipSpace rest with
      | '\x7d' :: rest => some (.object [], rest)
      | rest => (fields? fuel [] rest).map fun (fs, rest) => (.object fs, rest)
    | _ => (literal? cs).or (number? cs)

def items? : Nat → List Json → List Char → Option (List Json × List Char)
  | 0, _, _ => none
  | fuel + 1, done, cs => do
    let (x, cs) ← value? fuel cs
    match skipSpace cs with
    | ',' :: cs => items? fuel (x :: done) (skipSpace cs)
    | ']' :: cs => some ((x :: done).reverse, cs)
    | _ => none

def fields? : Nat → Fields → List Char → Option (Fields × List Char)
  | 0, _, _ => none
  | fuel + 1, done, cs => do
    match cs with
    | '\x22' :: cs =>
      let (key, cs) ← string? fuel [] cs
      match skipSpace cs with
      | ':' :: cs =>
        let (x, cs) ← value? fuel (skipSpace cs)
        match skipSpace cs with
        | ',' :: cs => fields? fuel (done.put key x) (skipSpace cs)
        | '\x7d' :: cs => some (done.put key x, cs)
        | _ => none
      | _ => none
    | _ => none

end

/-- The value that a text holds. Each step but the first of a value consumes a character, so twice their
number is enough for all steps. -/
def readChars? (cs : List Char) : Option Json :=
  let cs := skipSpace cs
  match value? (2 * cs.length + 2) cs with
  | some (j, rest) => if (skipSpace rest).isEmpty then some j else none
  | none => none

def read? (s : String) : Option Json := readChars? s.toList

end VirtualShell.Json
