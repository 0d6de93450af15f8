import VirtualShell.Pattern.Progress

/-!
# Escapes and sets

An escape stands for a character, a class, a place or a group, and in a set for the first two only.
-/
namespace VirtualShell.Pattern
set_option autoImplicit false

def isHex (c : Char) : Bool := c.isDigit || ('a' ≤ c && c ≤ 'f') || ('A' ≤ c && c ≤ 'F')

def isOctal (c : Char) : Bool := '0' ≤ c && c ≤ '7'

def hexValue (c : Char) : Nat :=
  if c.isDigit then c.toNat - 0x30 else if 'a' ≤ c then c.toNat - 0x57 else c.toNat - 0x37

def valueIn (base : Nat) (cs : List Char) : Nat := cs.foldl (fun n c => base * n + hexValue c) 0

def readHex (count : Nat) : Reading Nat := do
  let cs ← readWhile isHex count
  if cs.length == count then return valueIn 16 cs else invalid

def classOf? (c : Char) : Option SetItem :=
  if c == 'd' then some (.ofClass .digit false)
  else if c == 'D' then some (.ofClass .digit true)
  else if c == 's' then some (.ofClass .space false)
  else if c == 'S' then some (.ofClass .space true)
  else if c == 'w' then some (.ofClass .word false)
  else if c == 'W' then some (.ofClass .word true)
  else none

def controlOf? (c : Char) : Option Nat :=
  if c == 'a' then some 7
  else if c == 'b' then some 8
  else if c == 'f' then some 12
  else if c == 'n' then some 10
  else if c == 'r' then some 13
  else if c == 't' then some 9
  else if c == 'v' then some 11
  else if c == '\x5c' then some 0x5c
  else none

/-- Escapes that stand for one character wherever they occur; the others are asked for before. -/
def readCode (c : Char) : Reading Nat := do
  if c == 'x' then readHex 2
  else if c == 'u' then readHex 4
  else if c == 'U' then
    let n ← readHex 8
    if n ≤ 0x10ffff then return n else invalid
  else if c.isAlpha || c.isDigit then invalid
  else return c.toNat

def readSetEscape (c : Char) : Reading SetItem := do
  match controlOf? c, classOf? c with
  | some n, _ => return .code n
  | _, some item => return item
  | none, none =>
    if isOctal c then
      let n := valueIn 8 (c :: (← readWhile isOctal 2))
      if n ≤ 0o377 then return .code n else invalid
    else return .code (← readCode c)

def readMember : Token → Reading SetItem
  | .plain c => return .code c.toNat
  | .escape c => readSetEscape c
  | .dangling => invalid

/-- The members of a set up to its closing bracket, which counts as a member in the first place. -/
def readSet (items : List SetItem) : Nat → Reading (List SetItem)
  | 0 => invalid
  | fuel + 1 => do
    match ← next with
    | none => invalid
    | some t =>
      if t == .plain ']' && !items.isEmpty then return items
      let member ← readMember t
      if ← accept '-' then
        match ← next with
        | none => invalid
        | some u =>
          if u == .plain ']' then return items ++ [member, .code '-'.toNat]
          match member, ← readMember u with
          | .code first, .code last =>
            if last < first then invalid else readSet (items ++ [.range first last]) fuel
          | _, _ => invalid
      else readSet (items ++ [member]) fuel

def reference (o : Options) (number : Nat) : Reading Pattern := do
  if !(← get).isClosed number then invalid
  checkBehind number
  return .again number o

def one (o : Options) (item : SetItem) : Pattern := .char ⟨[item], false, o⟩

/-- An escape that starts with a digit other than zero: three octal digits, or the number of a group. -/
def readDigits (o : Options) (c : Char) : Reading Pattern := do
  match ← peek with
  | some (.plain d) =>
    if d.isDigit then
      let _ ← next
      let third ← peek
      match third with
      | some (.plain e) =>
        if isOctal c && isOctal d && isOctal e then
          let _ ← next
          let n := valueIn 8 [c, d, e]
          if n ≤ 0o377 then return one o (.code n) else invalid
        else reference o (valueIn 10 [c, d])
      | _ => reference o (valueIn 10 [c, d])
    else reference o (valueIn 10 [c])
  | _ => reference o (valueIn 10 [c])

def readEscape (o : Options) (c : Char) : Reading Pattern := do
  if c == 'A' then return .anchor .textStart
  else if c == 'Z' then return .anchor .textEnd
  else if c == 'b' then return .anchor (.boundary o.ascii false)
  else if c == 'B' then return .anchor (.boundary o.ascii true)
  else
    match classOf? c, controlOf? c with
    | some item, _ => return one o item
    | _, some n => return one o (.code n)
    | none, none =>
      if c == '0' then return one o (.code (valueIn 8 (c :: (← readWhile isOctal 2))))
      else if c.isDigit then readDigits o c
      else return one o (.code (← readCode c))

end VirtualShell.Pattern
