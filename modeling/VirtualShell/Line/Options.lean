import VirtualShell.Line.Command

/-!
# Options with values

Some commands have letters that take a value: the rest of their bundle or, at its end, the next word.
-/
namespace VirtualShell.Line
set_option autoImplicit false

def readBundle (valued : List Char) (options : Flags) : List Char → Flags × Option Char
  | [] => (options, none)
  | c :: cs =>
    if valued.contains c then
      if cs.isEmpty then (options, some c)
      else (options.put (String.singleton c) (.value (String.ofList cs)), none)
    else readBundle valued (options.put (String.singleton c) .set) cs

def readOptionsFrom (valued : List Char) (options : Flags) (operands : List String) :
    List String → Except Char (Flags × List String)
  | [] => .ok (options, operands)
  | [word] =>
    match word.toList with
    | '-' :: c :: cs =>
      match readBundle valued options (c :: cs) with
      | (options, none) => .ok (options, operands)
      | (_, some letter) => .error letter
    | _ => .ok (options, operands ++ [word])
  | word :: next :: rest =>
    match word.toList with
    | '-' :: c :: cs =>
      match readBundle valued options (c :: cs) with
      | (options, none) => readOptionsFrom valued options operands (next :: rest)
      | (options, some letter) =>
        readOptionsFrom valued (options.put (String.singleton letter) (.value next)) operands rest
    | _ => readOptionsFrom valued options (operands ++ [word]) (next :: rest)

def readOptions (valued : List Char) (words : List String) : Except Char (Flags × List String) :=
  readOptionsFrom valued [] [] words

end VirtualShell.Line
