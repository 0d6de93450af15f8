import VirtualShell.Decimal.Numeral

/-!
# The arguments of the program

Options may be shortened as long as they stay clear, and values attached. What each argument is gets
decided first; then the options are followed in order, and some of them end the program.
-/
namespace VirtualShell
set_option autoImplicit false

structure Invocation where
  user : Option String
  command : Option String
  load : Bool
  save : Bool
  savePath : Option String
  metricsPort : Option Int
  logLevel : Option String
  deriving DecidableEq, Repr

namespace Invocation

def empty : Invocation := ⟨none, none, false, false, none, none, none⟩

inductive Switch where
  | help
  | user
  | command
  | load
  | save
  | savePath
  | metricsPort
  | logLevel
  | version
  deriving DecidableEq, Repr

namespace Switch

def all : List Switch := [help, user, command, load, save, savePath, metricsPort, logLevel, version]

def longName : Switch → String
  | help => "--help"
  | user => "--user"
  | command => "--command"
  | load => "--load"
  | save => "--save"
  | savePath => "--save-path"
  | metricsPort => "--metrics-port"
  | logLevel => "--log-level"
  | version => "--version"

def letter? : Switch → Option Char
  | help => some 'h'
  | user => some 'u'
  | command => some 'c'
  | logLevel => some 'l'
  | version => some 'v'
  | _ => none

def takesValue : Switch → Bool
  | help | load | save | version => false
  | _ => true

def ofLetter? (c : Char) : Option Switch := all.find? fun s => s.letter? == some c

def ofName? (name : List Char) : Option Switch :=
  match name with
  | ['-', c] => ofLetter? c
  | _ => all.find? fun s => s.longName.toList == name

end Switch

structure Attached where
  byEquals : Bool
  value : List Char
  deriving DecidableEq, Repr

inductive Word where
  /-- An option, whether it was given by a letter, and what is attached to it. -/
  | switch (s : Switch) (short : Bool) (attached : Option Attached)
  /-- Looks like an option, but is none. -/
  | unknown
  | plain (text : String)
  deriving DecidableEq, Repr

inductive Ending where
  | help
  | version
  | misuse
  deriving DecidableEq, Repr

def isNegativeNumber (cs : List Char) : Bool :=
  match cs with
  | '-' :: cs =>
    let body := if cs.getLast? == some '\n' then cs.dropLast else cs
    let whole := body.takeWhile Text.isDecimalDigit
    match body.drop whole.length with
    | [] => !whole.isEmpty
    | '.' :: places => !places.isEmpty && places.all Text.isDecimalDigit
    | _ => false
  | _ => false

def splitValue (cs : List Char) : List Char × Option Attached :=
  if cs.contains '=' then (cs.takeWhile (· != '='), some ⟨true, (cs.dropWhile (· != '=')).drop 1⟩)
  else (cs, none)

def candidates (cs : List Char) : List (Switch × Bool × Option Attached) :=
  match cs with
  | '-' :: '-' :: _ =>
    let (name, value) := splitValue cs
    (Switch.all.filter fun s => name.isPrefixOf s.longName.toList).map (·, false, value)
  | '-' :: c :: rest => ((Switch.ofLetter? c).map fun s => (s, true, some ⟨false, rest⟩)).toList
  | _ => []

def classify (text : String) : Except Ending Word :=
  let cs := text.toList
  if cs.head? != some '-' || cs.length == 1 then .ok (.plain text)
  else
    let isShort := cs[1]? != some '-'
    match Switch.ofName? cs, splitValue cs with
    | some s, _ => .ok (.switch s isShort none)
    | none, (name, value) =>
      match if value.isSome then Switch.ofName? name else none with
      | some s => .ok (.switch s isShort value)
      | none =>
        match candidates cs with
        | (s, short, value) :: [] => .ok (.switch s short value)
        | _ :: _ :: _ => .error .misuse
        | [] => .ok (if isNegativeNumber cs || cs.contains ' ' then .plain text else .unknown)

def classifyAll : List String → Except Ending (List Word)
  | [] => .ok []
  | text :: rest =>
    if text == "--" then .ok (.unknown :: rest.map Word.plain)
    else do
      let word ← classify text
      let words ← classifyAll rest
      return word :: words

def logLevels : List String := ["DEBUG", "INFO", "WARNING", "ERROR", "CRITICAL"]

def put (i : Invocation) (s : Switch) (value : String) : Except Ending Invocation :=
  match s with
  | .user => .ok { i with user := some value }
  | .command => .ok { i with command := some value }
  | .savePath => .ok { i with savePath := some value }
  | .metricsPort =>
    match readInteger? value with
    | some port => .ok { i with metricsPort := some port }
    | none => .error .misuse
  | .logLevel => if logLevels.contains value then .ok { i with logLevel := some value } else .error .misuse
  | _ => .ok i

def turnOn (i : Invocation) : Switch → Except Ending Invocation
  | .help => .error .help
  | .version => .error .version
  | .load => .ok { i with load := true }
  | .save => .ok { i with save := true }
  | _ => .ok i

/-- Whether the letters behind one without a value make a bundle, `rest` being the arguments that
follow it. A letter that is no option does not break a bundle: it would be told at the end, but the
letters without a value end the program before. -/
def isBundle (rest : List Word) : List Char → Bool
  | [] => true
  | c :: cs =>
    if c == '-' then false
    else
      match Switch.ofLetter? c with
      | none => true
      | some s =>
        if s.takesValue then
          !cs.isEmpty || (match rest with
            | .plain _ :: _ => true
            | _ => false)
        else if cs.head? == some '=' then false
        else isBundle rest cs

def follow (i : Invocation) (extra : Bool) : List Word → Except Ending Invocation
  | [] => if extra then .error .misuse else .ok i
  | .plain _ :: rest | .unknown :: rest => follow i true rest
  | .switch s short attached :: rest =>
    match attached, s.takesValue with
    | some a, true => do
      let i ← i.put s (String.ofList a.value)
      follow i extra rest
    | some a, false =>
      if !short || a.byEquals || a.value.isEmpty || !isBundle rest a.value then .error .misuse
      else do
        let i ← i.turnOn s
        follow i extra rest
    | none, false => do
      let i ← i.turnOn s
      follow i extra rest
    | none, true =>
      match rest with
      | .plain value :: rest => do
        let i ← i.put s value
        follow i extra rest
      | _ => .error .misuse

def read (args : List String) : Except Ending Invocation := do
  let words ← classifyAll args
  follow empty false words

end Invocation

end VirtualShell
