import VirtualShell.Pattern.Width

/-!
# Going through a pattern

A pattern is read as characters and escaped characters, the groups being counted on the way.
-/
namespace VirtualShell.Pattern
set_option autoImplicit false

inductive Fault where
  | invalid
  /-- A number of repetitions is beyond all bounds. -/
  | repeatTooLarge
  /-- The letters of the pattern are to be ASCII alone and of all scripts at once. -/
  | mixedAlphabets
  deriving DecidableEq, Repr

inductive Token where
  | plain (c : Char)
  | escape (c : Char)
  /-- A backslash at the very end. -/
  | dangling
  deriving DecidableEq, Repr

def tokens : List Char → List Token
  | [] => []
  | '\x5c' :: c :: cs => .escape c :: tokens cs
  | ['\x5c'] => [.dangling]
  | c :: cs => .plain c :: tokens cs

structure Progress where
  rest : List Token
  options : Options
  /-- Options that were asked for by letter at the start. -/
  ascii : Bool
  unicode : Bool
  template : Bool
  /-- For each group from the first on its width, once it is closed. -/
  widths : List (Option Width)
  names : List (List Char × Nat)
  /-- Groups from this number on were opened inside of the lookbehind that is being read. -/
  behindFrom : Option Nat
  /-- Groups that a condition asks for by number. -/
  asked : List Nat
  /-- Whether a lookbehind has no single width, which is told when all else has been read. -/
  unevenBehind : Bool

abbrev Reading (α : Type) := StateT Progress (Except Fault) α

def invalid {α : Type} : Reading α := throw .invalid

def Progress.groupCount (p : Progress) : Nat := p.widths.length + 1

def peek : Reading (Option Token) := do return (← get).rest.head?

/-- Sets what is left; a dangling backslash is a fault as soon as it comes up. -/
def setRest (rest : List Token) : Reading Unit := do
  if rest.head? == some .dangling then invalid
  modify fun p => { p with rest := rest }

def next : Reading (Option Token) := do
  match (← get).rest with
  | [] => return none
  | t :: ts =>
    setRest ts
    return some t

def accept (c : Char) : Reading Bool := do
  if (← peek) == some (.plain c) then
    let _ ← next
    return true
  else return false

def expect (c : Char) : Reading Unit := do
  if !(← accept c) then invalid

def readWhile (test : Char → Bool) : Nat → Reading (List Char)
  | 0 => return []
  | most + 1 => do
    match ← peek with
    | some (.plain c) =>
      if test c then
        let _ ← next
        return c :: (← readWhile test most)
      else return []
    | _ => return []

/-- A name up to its closing character; an escape in it makes it invalid. -/
def readName (close : Char) : Nat → Reading (List Char)
  | 0 => invalid
  | fuel + 1 => do
    match ← next with
    | some (.plain c) => if c == close then return [] else return c :: (← readName close fuel)
    | _ => invalid

def Progress.isClosed (p : Progress) (number : Nat) : Bool := ((p.widths[number - 1]?).join).isSome

/-- Inside of a lookbehind only groups from before it may be referred to. -/
def checkBehind (number : Nat) : Reading Unit := do
  let p ← get
  match p.behindFrom with
  | none => return ()
  | some bound => if !p.isClosed number || bound ≤ number then invalid

def openGroup (name : Option (List Char)) : Reading Nat := do
  let p ← get
  let number := p.groupCount
  match name with
  | none => set { p with widths := p.widths ++ [none] }
  | some name =>
    if p.names.any fun entry => entry.1 == name then invalid
    set { p with widths := p.widths ++ [none], names := p.names ++ [(name, number)] }
  return number

def closeGroup (number : Nat) (q : Pattern) : Reading Unit :=
  modify fun p => { p with widths := p.widths.set (number - 1) (some (widthOf p.widths q)) }

def numberOf (name : List Char) : Reading Nat := do
  match (← get).names.find? fun entry => entry.1 == name with
  | some entry => return entry.2
  | none => invalid

end VirtualShell.Pattern
