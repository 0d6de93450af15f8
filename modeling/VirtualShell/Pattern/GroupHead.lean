import VirtualShell.Decimal.Numeral
import VirtualShell.Pattern.Escape

/-!
# Heads of groups

The head of a group names it, makes it look ahead or behind, or switches options. Options for the
whole pattern stand at its very start, so they are known to all that follows.
-/
namespace VirtualShell.Pattern
set_option autoImplicit false

def isNameStart (c : Char) : Bool := Text.isWordChar c && !Text.isAnyDigit c

def isName : List Char → Bool
  | [] => false
  | c :: cs => isNameStart c && cs.all fun d => isNameStart d || Text.isDecimalDigit d

def readAsked (name : List Char) : Reading Nat := do
  if isName name then numberOf name
  else
    match Decimal.integer? (Decimal.trim name) with
    | some (.ofNat (n + 1)) =>
      modify fun p => { p with asked := (n + 1) :: p.asked }
      return n + 1
    | _ => invalid

structure Letters where
  ignoreCase : Bool
  multiline : Bool
  dotAll : Bool
  verbose : Bool
  ascii : Bool
  unicode : Bool
  template : Bool
  deriving DecidableEq, Repr

def Letters.none : Letters := ⟨false, false, false, false, false, false, false⟩

def Letters.add? (l : Letters) (c : Char) : Option Letters :=
  if c == 'i' then some { l with ignoreCase := true }
  else if c == 'm' then some { l with multiline := true }
  else if c == 's' then some { l with dotAll := true }
  else if c == 'x' then some { l with verbose := true }
  else if c == 'a' then if l.unicode then Option.none else some { l with ascii := true }
  else if c == 'u' then if l.ascii then Option.none else some { l with unicode := true }
  else if c == 't' then some { l with template := true }
  else Option.none

def readLetters (l : Letters) (c : Char) : Nat → Reading (Letters × Char)
  | 0 => invalid
  | fuel + 1 => do
    match l.add? c with
    | none => invalid
    | some l =>
      match ← next with
      | some (.plain d) =>
        if d == ')' || d == '-' || d == ':' then return (l, d) else readLetters l d fuel
      | _ => invalid

def switchGlobally (l : Letters) : Reading Unit :=
  modify fun p =>
    { p with
      options :=
        { ignoreCase := p.options.ignoreCase || l.ignoreCase
          multiline := p.options.multiline || l.multiline
          dotAll := p.options.dotAll || l.dotAll
          verbose := p.options.verbose || l.verbose
          ascii := p.options.ascii || l.ascii }
      ascii := p.ascii || l.ascii
      unicode := p.unicode || l.unicode
      template := p.template || l.template }

def switchLocally (o : Options) (on off : Letters) : Reading Options := do
  if on.template || off.template || off.ascii || off.unicode then invalid
  if (on.ignoreCase && off.ignoreCase) || (on.multiline && off.multiline) || (on.dotAll && off.dotAll) ||
      (on.verbose && off.verbose) then invalid
  return {
    ignoreCase := (o.ignoreCase || on.ignoreCase) && !off.ignoreCase
    multiline := (o.multiline || on.multiline) && !off.multiline
    dotAll := (o.dotAll || on.dotAll) && !off.dotAll
    verbose := (o.verbose || on.verbose) && !off.verbose
    ascii := (o.ascii && !on.unicode) || on.ascii }

inductive GroupHead where
  | capture (name : Option (List Char))
  | plain (o : Options)
  | atomic
  | look (behind negated : Bool)
  | condition (number : Nat)
  /-- The group is no part of the pattern, or is a complete part already. -/
  | done (item : Option Pattern)
  | global

def skipComment : Nat → Reading Unit
  | 0 => invalid
  | fuel + 1 => do
    match ← next with
    | none => invalid
    | some t => if t == .plain ')' then return () else skipComment fuel

def readHead (o : Options) (fuel : Nat) : Reading GroupHead := do
  if !(← accept '?') then return .capture none
  match ← next with
  | some (.plain c) =>
    if c == 'P' then
      if ← accept '<' then
        let name ← readName '>' fuel
        if isName name then return .capture (some name) else invalid
      else if ← accept '=' then
        let name ← readName ')' fuel
        return .done (some (← reference o (← numberOf name)))
      else invalid
    else if c == ':' then return .plain o
    else if c == '#' then
      skipComment fuel
      return .done none
    else if c == '=' then return .look false false
    else if c == '!' then return .look false true
    else if c == '<' then
      if ← accept '=' then return .look true false
      else if ← accept '!' then return .look true true
      else invalid
    else if c == '(' then
      let number ← readAsked (← readName ')' fuel)
      checkBehind number
      return .condition number
    else if c == '>' then return .atomic
    else
      let (on, close) ← if c == '-' then pure (Letters.none, '-') else readLetters .none c fuel
      if close == ')' then
        switchGlobally on
        return .global
      else if close == ':' then return .plain (← switchLocally o on .none)
      else
        match ← next with
        | some (.plain d) =>
          let (off, close) ← readLetters .none d fuel
          if close == ':' then return .plain (← switchLocally o on off) else invalid
        | _ => invalid
  | _ => invalid

end VirtualShell.Pattern
