/-!
# Name patterns

In a name pattern a star stands for any text, a question mark for any one character, and brackets for
one character of a set.
-/
namespace VirtualShell
set_option autoImplicit false

namespace Glob

inductive Piece where
  | anyText
  | anyChar
  | exactly (c : Char)
  /-- One character of the ranges, or one of none of them. -/
  | oneOf (negated : Bool) (ranges : List (Char × Char))
  deriving DecidableEq, Repr

def untilBracket : List Char → Option (List Char × List Char)
  | [] => none
  | ']' :: cs => some ([], cs)
  | c :: cs => (untilBracket cs).map fun (inner, rest) => (c :: inner, rest)

/-- The text between brackets: a `]` at the start of it is a member. -/
def bracketed? : List Char → Option (List Char × List Char)
  | '!' :: ']' :: cs => (untilBracket cs).map fun (inner, rest) => ('!' :: ']' :: inner, rest)
  | '!' :: cs => (untilBracket cs).map fun (inner, rest) => ('!' :: inner, rest)
  | ']' :: cs => (untilBracket cs).map fun (inner, rest) => (']' :: inner, rest)
  | cs => untilBracket cs

/-- Cuts at each hyphen that makes a range. The first `skip` characters are none. -/
def chunksFrom (chunk : List Char) : Nat → List Char → List (List Char)
  | _, [] => [chunk]
  | skip + 1, c :: cs => chunksFrom (chunk ++ [c]) skip cs
  | 0, c :: cs => if c == '-' then chunk :: chunksFrom [] 2 cs else chunksFrom (chunk ++ [c]) 0 cs

/-- A hyphen at the end makes no range. -/
def joinLast : List (List Char) → List (List Char)
  | [] => []
  | [c] => [c]
  | [c, []] => [c ++ ['-']]
  | c :: cs => c :: joinLast cs

/-- Ranges that run backwards are left out, with both of their ends. -/
def dropBackward : List (List Char) → List (List Char)
  | [] => []
  | c :: cs =>
    match c.getLast?, dropBackward cs with
    | some last, (first :: d) :: ds =>
      if first < last then (c.dropLast ++ d) :: ds else c :: (first :: d) :: ds
    | _, ds => c :: ds

def rangesFrom (last : Option Char) : List (List Char) → List (Char × Char)
  | [] => []
  | c :: cs =>
    (match last, c.head? with
      | some a, some b => [(a, b)]
      | _, _ => []) ++ c.map (fun a => (a, a)) ++ rangesFrom c.getLast? cs

/-- The set that stands between brackets; one that begins with an exclamation mark is negated. -/
def setOf (inner : List Char) : Piece :=
  let skip := if inner.head? == some '!' then 2 else 1
  match dropBackward (joinLast (chunksFrom [] skip inner)) with
  | ['!'] :: c :: cs => .oneOf true (rangesFrom none (('-' :: c) :: cs))
  | ('!' :: c) :: cs => .oneOf true (rangesFrom none (c :: cs))
  | cs => .oneOf false (rangesFrom none cs)

/-- A bracket that is never closed stands for itself. -/
def piecesFrom : Nat → List Char → List Piece
  | 0, _ | _, [] => []
  | fuel + 1, '*' :: cs => .anyText :: piecesFrom fuel cs
  | fuel + 1, '?' :: cs => .anyChar :: piecesFrom fuel cs
  | fuel + 1, '[' :: cs =>
    match bracketed? cs with
    | some (inner, rest) => setOf inner :: piecesFrom fuel rest
    | none => .exactly '[' :: piecesFrom fuel cs
  | fuel + 1, c :: cs => .exactly c :: piecesFrom fuel cs

def tails : List Char → List (List Char)
  | [] => [[]]
  | c :: cs => (c :: cs) :: tails cs

def Piece.accepts (c : Char) : Piece → Bool
  | .anyText | .anyChar => true
  | .exactly d => c == d
  | .oneOf negated ranges => ranges.any (fun (a, b) => a ≤ c && c ≤ b) != negated

/-- What may be left of a text after a piece, from what may be left before it, longest first. -/
def Piece.step (left : List (List Char)) : Piece → List (List Char)
  | .anyText => (left.head?.map tails).getD []
  | p => left.filterMap fun cs =>
    match cs with
    | c :: cs => if p.accepts c then some cs else none
    | [] => none

end Glob

/-- A pattern for whole names. -/
structure Glob where
  pieces : List Glob.Piece
  deriving DecidableEq, Repr

namespace Glob

def ofText (s : String) : Glob := ⟨piecesFrom s.length s.toList⟩

def matchesName (g : Glob) (name : String) : Bool :=
  (g.pieces.foldl Piece.step [name.toList]).contains []

end Glob

end VirtualShell
