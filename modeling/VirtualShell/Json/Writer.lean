import VirtualShell.Json
import VirtualShell.Decimal.Shortest
import VirtualShell.Text.Quoted

/-!
# Writing data

`Json.write` sets every item and every field on a line of its own, two spaces further in than the
bracket around it. The text is plain ASCII.
-/
namespace VirtualShell.Json
set_option autoImplicit false

def codeUnit (n : Nat) : List Char := '\x5c' :: 'u' :: Text.hexDigits 4 n

/-- A character inside of a string; one above the first plane is written as a pair of units. -/
def writtenChar (c : Char) : List Char :=
  let n := c.toNat
  if c == '\x22' || c == '\x5c' then ['\x5c', c]
  else if c == '\n' then ['\x5c', 'n']
  else if c == '\r' then ['\x5c', 'r']
  else if c == '\t' then ['\x5c', 't']
  else if c == '\x0c' then ['\x5c', 'f']
  else if c == '\x08' then ['\x5c', 'b']
  else if 0x20 ≤ n && n ≤ 0x7e then [c]
  else if n < 0x10000 then codeUnit n
  else codeUnit (0xd800 + (n - 0x10000) / 0x400) ++ codeUnit (0xdc00 + (n - 0x10000) % 0x400)

def stringChars (s : String) : List Char := '\x22' :: (s.toList.flatMap writtenChar ++ ['\x22'])

def writeString (s : String) : String := String.ofList (stringChars s)

def newLine (depth : Nat) : List Char := '\n' :: List.replicate (2 * depth) ' '

mutual

def writeAt (depth : Nat) (rest : List Char) : Json → List Char
  | .null => "null".toList ++ rest
  | .bool true => "true".toList ++ rest
  | .bool false => "false".toList ++ rest
  | .int n => (toString n).toList ++ rest
  | .float x => (floatTextWith ⟨"NaN", "Infinity"⟩ x).toList ++ rest
  | .string s => stringChars s ++ rest
  | .array [] => '[' :: ']' :: rest
  | .array (x :: xs) =>
    '[' :: (newLine (depth + 1) ++
      writeAt (depth + 1) (writeItems (depth + 1) (newLine depth ++ ']' :: rest) xs) x)
  | .object [] => '\x7b' :: '\x7d' :: rest
  | .object ((k, x) :: fs) =>
    '\x7b' :: (newLine (depth + 1) ++ stringChars k ++ ':' :: ' ' ::
      writeAt (depth + 1) (writeFields (depth + 1) (newLine depth ++ '\x7d' :: rest) fs) x)

def writeItems (depth : Nat) (rest : List Char) : List Json → List Char
  | [] => rest
  | x :: xs => ',' :: (newLine depth ++ writeAt depth (writeItems depth rest xs) x)

def writeFields (depth : Nat) (rest : List Char) : List (String × Json) → List Char
  | [] => rest
  | (k, x) :: fs =>
    ',' :: (newLine depth ++ stringChars k ++ ':' :: ' ' :: writeAt depth (writeFields depth rest fs) x)

end

def write (j : Json) : String := String.ofList (writeAt 0 [] j)

end VirtualShell.Json
