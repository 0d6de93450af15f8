/-! # Text inside of markup -/
namespace VirtualShell.Text
set_option autoImplicit false

def escapedChar (c : Char) : List Char :=
  if c == '&' then "&amp;".toList
  else if c == '<' then "&lt;".toList
  else if c == '>' then "&gt;".toList
  else if c == '\x22' then "&quot;".toList
  else if c == '\x27' then "&#x27;".toList
  else [c]

def escapeChars (cs : List Char) : List Char := cs.flatMap escapedChar

end VirtualShell.Text

namespace VirtualShell
set_option autoImplicit false

def escapeMarkup (s : String) : String := String.ofList (Text.escapeChars s.toList)

def markSpan (className body : String) : String :=
  "<span class=\"" ++ className ++ "\">" ++ body ++ "</span>"

end VirtualShell
