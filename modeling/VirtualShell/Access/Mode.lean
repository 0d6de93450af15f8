import VirtualShell.Access.Permission
import VirtualShell.Text.Blank
import VirtualShell.Text.Digit

/-!
# Modes

A mode is written as octal digits, or as clauses such as `u+x,go-w` that change a permission text
from left to right. All clauses are read before the first one is applied.
-/
namespace VirtualShell
set_option autoImplicit false

namespace Mode

inductive Class where
  | user
  | group
  | other
  deriving DecidableEq, Repr

def Class.letter : Class → Char
  | user => 'u'
  | group => 'g'
  | other => 'o'

def Class.start : Class → Nat
  | user => 0
  | group => 3
  | other => 6

def Class.all : List Class := [user, group, other]

def bits : List (Class × Access) := Class.all.flatMap fun c => Access.all.map (c, ·)

def place (c : Class) (a : Access) : Nat := c.start + a.place

inductive Operator where
  | add
  | remove
  | assign
  deriving DecidableEq, Repr

structure Clause where
  who : List Char
  operator : Operator
  letters : List Char
  deriving DecidableEq, Repr

namespace Clause

def operator? (c : Char) : Option Operator :=
  if c == '+' then some .add
  else if c == '-' then some .remove
  else if c == '=' then some .assign
  else none

/-- Reads a clause. Only an assignment may go without letters; one newline may end it. -/
def read? (cs : List Char) : Option Clause := do
  let who := cs.takeWhile fun c => ['u', 'g', 'o', 'a'].contains c
  match cs.dropWhile fun c => ['u', 'g', 'o', 'a'].contains c with
  | [] => none
  | o :: cs =>
    let operator ← operator? o
    let letters := cs.takeWhile fun c => ['r', 'w', 'x'].contains c
    let rest := cs.dropWhile fun c => ['r', 'w', 'x'].contains c
    if rest != [] && rest != ['\n'] then none
    else if letters.isEmpty && operator != .assign then none
    else some { who, operator, letters }

/-- A clause that names no class addresses all of them, and so does one with an `a`. -/
def addresses (k : Clause) (c : Class) : Bool :=
  k.who.isEmpty || k.who.contains 'a' || k.who.contains c.letter

def writes? (k : Clause) (c : Class) (a : Access) : Option Char :=
  if !k.addresses c then none
  else
    let named := k.letters.contains a.letter
    match k.operator with
    | .add => if named then some a.letter else none
    | .remove => if named then some '-' else none
    | .assign => some (if named then a.letter else '-')

def applyBit (k : Clause) (text : List Char) (bit : Class × Access) : Except Fault (List Char) :=
  match k.writes? bit.1 bit.2 with
  | none => .ok text
  | some letter =>
    let i := place bit.1 bit.2
    if i < text.length then .ok (text.set i letter) else crash .shortMode

def apply (k : Clause) (text : List Char) : Except Fault (List Char) := bits.foldlM k.applyBit text

end Clause

def digitLetters (value : Nat) : List Char :=
  [if value / 4 % 2 == 1 then 'r' else '-', if value / 2 % 2 == 1 then 'w' else '-',
    if value % 2 == 1 then 'x' else '-']

def isOctalDigit (c : Char) : Bool := '0' ≤ c && c ≤ '7'

/-- Three octal digits, perhaps after a zero. One newline may follow. -/
def isOctal (cs : List Char) : Bool :=
  let digits := if cs.getLast? == some '\n' then cs.dropLast else cs
  digits.all isOctalDigit && (digits.length == 3 || digits.length == 4 && digits.head? == some '0')

def ofOctal (octal : String) : Except Fault String :=
  let cs := octal.toList
  if !isOctal cs then refuse (.invalidMode octal)
  else do
    let letters ← (cs.drop (cs.length - 3)).mapM fun c =>
      if isOctalDigit c then .ok (digitLetters (c.toNat - 0x30)) else crash (.notANumber (String.singleton c))
    return String.ofList letters.flatten

def octalDigit (text : List Char) (c : Class) : Except Fault Char := do
  let values ← Access.all.mapM fun a =>
    match text[place c a]? with
    | none => crash .shortPermissions
    | some letter => .ok (if letter == a.letter then a.weight else 0)
  return Char.ofNat (0x30 + values.foldl (· + ·) 0)

def toOctal (permissions : String) : Except Fault String := do
  let digits ← Class.all.mapM (octalDigit permissions.toList)
  return String.ofList digits

def clauses? (cs : List Char) : Option (List Clause) := (cs.splitOn ',').mapM Clause.read?

def apply (expression current : String) : Except Fault String :=
  let cs := Text.trim expression.toList
  if cs.isEmpty then refuse (.invalidMode "")
  else if cs.all Text.isAnyDigit then ofOctal (String.ofList cs)
  else
    match clauses? cs with
    | none => refuse (.invalidMode (String.ofList cs))
    | some clauses => do
      let text ← clauses.foldlM (fun text k => k.apply text) current.toList
      return String.ofList text

end Mode

structure OwnerSpec where
  owner : Option String
  group : Option String
  deriving DecidableEq, Repr

namespace OwnerSpec

def named (cs : List Char) : Option String := if cs.isEmpty then none else some (String.ofList cs)

/-- Owner and group stand on the sides of the first colon, or of the first point if there is no colon. -/
def ofText (spec : String) : OwnerSpec :=
  let cs := spec.toList
  let separator := if cs.contains ':' then some ':' else if cs.contains '.' then some '.' else none
  match separator with
  | none => ⟨some spec, none⟩
  | some s => ⟨named (cs.takeWhile (· != s)), named ((cs.dropWhile (· != s)).drop 1)⟩

end OwnerSpec

end VirtualShell
