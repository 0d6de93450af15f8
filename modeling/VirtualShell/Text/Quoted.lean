import VirtualShell.Text.Printable

/-!
# Quoted texts

A quoted text stands between single quotes, or between double quotes when it holds a single quote
and no double one. Characters without a visible form are written by their code.
-/
namespace VirtualShell.Text
set_option autoImplicit false

def hexDigit (n : Nat) : Char := Char.ofNat (if n < 10 then 0x30 + n else 0x57 + n)

def hexDigits : Nat → Nat → List Char
  | 0, _ => []
  | width + 1, n => hexDigits width (n / 16) ++ [hexDigit (n % 16)]

def quotedChar (quote c : Char) : List Char :=
  let n := c.toNat
  if c == quote || c == '\x5c' then ['\x5c', c]
  else if c == '\t' then ['\x5c', 't']
  else if c == '\n' then ['\x5c', 'n']
  else if c == '\r' then ['\x5c', 'r']
  else if 0x20 ≤ n && n < 0x7f then [c]
  else if n < 0xa0 then '\x5c' :: 'x' :: hexDigits 2 n
  else if isPrintable c then [c]
  else if n ≤ 0xff then '\x5c' :: 'x' :: hexDigits 2 n
  else if n ≤ 0xffff then '\x5c' :: 'u' :: hexDigits 4 n
  else '\x5c' :: 'U' :: hexDigits 8 n

def quotedChars (cs : List Char) : List Char :=
  let quote := if cs.contains '\x27' && !cs.contains '\x22' then '\x22' else '\x27'
  quote :: cs.flatMap (quotedChar quote) ++ [quote]

def quoted (s : String) : String := String.ofList (quotedChars s.toList)

def quotedList (ss : List String) : String := "[" ++ String.intercalate ", " (ss.map quoted) ++ "]"

end VirtualShell.Text
