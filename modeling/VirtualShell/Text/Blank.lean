/-!
# Blanks, words and lines

Texts are lists of characters here; the functions on `String` at the end carry them over.
-/
namespace VirtualShell.Text
set_option autoImplicit false

/-- The blanks: the tab and the line controls, the four separators, and the spaces of every width. -/
def isBlank (c : Char) : Bool :=
  let n := c.toNat
  (9 ≤ n && n ≤ 13) || (28 ≤ n && n ≤ 32) || n == 0x85 || n == 0xa0 || n == 0x1680 ||
    (0x2000 ≤ n && n ≤ 0x200a) || n == 0x2028 || n == 0x2029 || n == 0x202f || n == 0x205f || n == 0x3000

/-- The characters that end a line. Of the blanks, the tab, the unit separator and the spaces do not. -/
def isLineBreak (c : Char) : Bool :=
  let n := c.toNat
  (10 ≤ n && n ≤ 13) || (28 ≤ n && n ≤ 30) || n == 0x85 || n == 0x2028 || n == 0x2029

def trimLeft (cs : List Char) : List Char := cs.dropWhile isBlank

def trimRight (cs : List Char) : List Char := (cs.reverse.dropWhile isBlank).reverse

def trim (cs : List Char) : List Char := trimRight (trimLeft cs)

/-- The lines of a text, `line` being read so far in reverse. A break at the very end opens no line. -/
def linesFrom (line : List Char) : List Char → List (List Char)
  | [] => if line.isEmpty then [] else [line.reverse]
  | '\r' :: '\n' :: cs => line.reverse :: linesFrom [] cs
  | c :: cs => if isLineBreak c then line.reverse :: linesFrom [] cs else linesFrom (c :: line) cs

/-- The number of runs of characters that are not blank; `inside` tells whether one is open. -/
def wordCountFrom (inside : Bool) : List Char → Nat
  | [] => 0
  | c :: cs =>
    if isBlank c then wordCountFrom false cs
    else (if inside then 0 else 1) + wordCountFrom true cs

end VirtualShell.Text

namespace VirtualShell
set_option autoImplicit false

def trimText (s : String) : String := String.ofList (Text.trim s.toList)

def linesOf (s : String) : List String := (Text.linesFrom [] s.toList).map String.ofList

def wordCount (s : String) : Nat := Text.wordCountFrom false s.toList

def dropFinalNewlines (s : String) : String :=
  String.ofList (s.toList.reverse.dropWhile (· == '\n')).reverse

end VirtualShell
