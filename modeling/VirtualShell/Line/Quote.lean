import VirtualShell.Text.Blank

/-!
# Quoting on a command line

One automaton follows the quotes and backslashes of a line, and everything that reads a line goes
by its state. `quoteWord` writes any text as one word.
-/
namespace VirtualShell.Line
set_option autoImplicit false

/-- Where on a line a character stands: outside of quotes, inside, or after a backslash. -/
inductive Quote where
  | bare
  | single
  | double
  | bareEscape
  | doubleEscape
  deriving DecidableEq, Repr

namespace Quote

/-- The state after a character. A backslash counts everywhere but in single quotes. -/
def step : Quote → Char → Quote
  | bare, c => if c == '\x5c' then bareEscape else if c == '\x27' then single else if c == '\x22' then double else bare
  | single, c => if c == '\x27' then bare else single
  | double, c => if c == '\x5c' then doubleEscape else if c == '\x22' then bare else double
  | bareEscape, _ => bare
  | doubleEscape, _ => double

def run (q : Quote) (cs : List Char) : Quote := cs.foldl step q

def isEscape : Quote → Bool
  | bareEscape | doubleEscape => true
  | _ => false

/-- Whether a quotation is open. A backslash alone opens none. -/
def isOpen : Quote → Bool
  | single | double | doubleEscape => true
  | bare | bareEscape => false

def marks : Quote → Char → Bool
  | bare, c => c == '\x5c' || c == '\x27' || c == '\x22'
  | single, c => c == '\x27'
  | double, c => c == '\x5c' || c == '\x22'
  | bareEscape, _ | doubleEscape, _ => false

def separates (q : Quote) (c : Char) : Bool := q == bare && Text.isBlank c

end Quote

def isBalanced (cs : List Char) : Bool := !(Quote.run .bare cs).isOpen

/-- The words of a line without their quotes; `word` is being read in reverse, if one is open. -/
def wordsFrom (q : Quote) (word : Option (List Char)) : List Char → List (List Char)
  | [] =>
    match if q.isEscape then some ('\x5c' :: word.getD []) else word with
    | some w => [w.reverse]
    | none => []
  | c :: cs =>
    if q.separates c then
      match word with
      | some w => w.reverse :: wordsFrom .bare none cs
      | none => wordsFrom .bare none cs
    else if q.marks c then wordsFrom (q.step c) (some (word.getD [])) cs
    else wordsFrom (q.step c) (some (c :: word.getD [])) cs

def words (cs : List Char) : List (List Char) := wordsFrom .bare none cs

def afterWordFrom (q : Quote) : List Char → List Char
  | [] => []
  | c :: cs => if q.separates c then Text.trim (c :: cs) else afterWordFrom (q.step c) cs

def afterWord (cs : List Char) : List Char := afterWordFrom .bare (Text.trimLeft cs)

/-- The parts of a line between pipes; `part` is being read in reverse. -/
def splitPipesFrom (q : Quote) (part : List Char) : List Char → List (List Char)
  | [] => [part.reverse]
  | c :: cs =>
    if q == .bare && c == '|' then part.reverse :: splitPipesFrom .bare [] cs
    else splitPipesFrom (q.step c) (c :: part) cs

def splitPipes (cs : List Char) : List (List Char) := splitPipesFrom .bare [] cs

/-- A character inside of single quotes; a single quote closes them, stands escaped, and opens them again. -/
def quotedChar (c : Char) : List Char := if c == '\x27' then ['\x27', '\x5c', '\x27', '\x27'] else [c]

def quoteChars (cs : List Char) : List Char := '\x27' :: (cs.flatMap quotedChar ++ ['\x27'])

/-- Writes any text as one word of a line. -/
def quoteWord (s : String) : String := String.ofList (quoteChars s.toList)

def tokenize (s : String) : List String := (words s.toList).map String.ofList

def dropWord (s : String) : String := String.ofList (afterWord s.toList)

end VirtualShell.Line
