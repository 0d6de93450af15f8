import VirtualShell.Text.Blank
import VirtualShell.Text.Case
import VirtualShell.Text.Digit
import VirtualShell.Text.Letter

/-!
# Search patterns

A pattern is read once into a `Pattern`, in which every part carries the options that hold for it.
-/
namespace VirtualShell
set_option autoImplicit false

namespace Pattern

structure Options where
  ignoreCase : Bool
  multiline : Bool
  dotAll : Bool
  verbose : Bool
  ascii : Bool
  deriving DecidableEq, Repr

def Options.none : Options := ⟨false, false, false, false, false⟩

inductive CharClass where
  | digit
  | space
  | word
  deriving DecidableEq, Repr

def isAsciiWord (c : Char) : Bool := c.isAlphanum || c == '_'

def CharClass.contains (k : CharClass) (ascii : Bool) (c : Char) : Bool :=
  match k, ascii with
  | digit, true => c.isDigit
  | digit, false => Text.isDecimalDigit c
  | space, true => c == ' ' || (9 ≤ c.toNat && c.toNat ≤ 13)
  | space, false => Text.isBlank c
  | word, true => isAsciiWord c
  | word, false => Text.isWordChar c

inductive SetItem where
  | code (n : Nat)
  | range (first last : Nat)
  | ofClass (k : CharClass) (negated : Bool)
  deriving DecidableEq, Repr

def asciiSmall (n : Nat) : Nat := if 0x41 ≤ n && n ≤ 0x5a then n + 0x20 else n

/-- Whether some code of a range has the same small form in ASCII as `n`. -/
def asciiInRange (first last n : Nat) : Bool :=
  let small := asciiSmall n
  (first ≤ small && small ≤ last) ||
    (0x61 ≤ small && small ≤ 0x7a && first ≤ small - 0x20 && small - 0x20 ≤ last)

def SetItem.contains (item : SetItem) (o : Options) (c : Char) : Bool :=
  let n := c.toNat
  match item with
  | code m =>
    if !o.ignoreCase then n == m
    else if o.ascii then asciiSmall n == asciiSmall m
    else Text.sameLetter m n
  | range first last =>
    if !o.ignoreCase then first ≤ n && n ≤ last
    else if o.ascii then asciiInRange first last n
    else Text.sameLetterInRange first last n
  | ofClass k negated => k.contains o.ascii c != negated

structure CharSet where
  items : List SetItem
  negated : Bool
  options : Options
  deriving DecidableEq, Repr

def CharSet.contains (s : CharSet) (c : Char) : Bool :=
  s.items.any (fun item => item.contains s.options c) != s.negated

inductive Anchor where
  | textStart
  | lineStart
  | textEnd
  /-- The end of the text, or a newline at its end. -/
  | lastLineEnd
  | lineEnd
  | boundary (ascii negated : Bool)
  deriving DecidableEq, Repr

/-- Which number of repetitions is tried first, and whether others are tried at all. -/
inductive Greed where
  | greedy
  | lazy
  | possessive
  deriving DecidableEq, Repr

end Pattern

inductive Pattern where
  | empty
  | char (set : Pattern.CharSet)
  | anchor (a : Pattern.Anchor)
  | seq (p q : Pattern)
  | alt (p q : Pattern)
  /-- A group keeps what it matched under its number, if it has one. -/
  | group (number : Option Nat) (p : Pattern)
  | repetition (p : Pattern) (least : Nat) (most : Option Nat) (greed : Pattern.Greed)
  /-- The text that a group has kept. -/
  | again (number : Nat) (options : Pattern.Options)
  /-- What follows matches, or does not. -/
  | ahead (p : Pattern) (negated : Bool)
  /-- The `width` characters before match, or do not. -/
  | behind (p : Pattern) (width : Nat) (negated : Bool)
  /-- The first way to match is the only one. -/
  | atomic (p : Pattern)
  | ifGroup (number : Nat) (yes no : Pattern)
  deriving Repr

end VirtualShell
