import VirtualShell.Pattern.Syntax

/-!
# Matching patterns

A pattern is matched by trying its ways in order, each with what has to follow it, so that the first
way on which all of the rest succeeds is the answer. A repetition stops when a round has not moved on,
which bounds its rounds by the length of the text.
-/
namespace VirtualShell.Pattern
set_option autoImplicit false

/-- A place in the text, with the spans that the groups have kept. -/
structure Place where
  position : Nat
  groups : List (Nat × Nat × Nat)
  deriving DecidableEq, Repr

def Place.group? (s : Place) (number : Nat) : Option (Nat × Nat) :=
  (s.groups.find? fun entry => entry.1 == number).map Prod.snd

def Place.keep (s : Place) (number start : Nat) : Place :=
  { s with groups := (number, start, s.position) :: s.groups.filter fun entry => entry.1 != number }

/-- What has to follow, and a part of a pattern as a function of that. -/
abbrev Rest := Place → Option Place

abbrev Way := Rest → Rest

def isWordAt (text : Array Char) (ascii : Bool) (n : Nat) : Bool :=
  match text[n]? with
  | some c => CharClass.word.contains ascii c
  | none => false

/-- Whether a place is one of the kind. An empty text has no boundaries, and no places without one. -/
def Anchor.holds (text : Array Char) (n : Nat) : Anchor → Bool
  | .textStart => n == 0
  | .lineStart => n == 0 || text[n - 1]? == some '\n'
  | .textEnd => n == text.size
  | .lastLineEnd => n == text.size || (n + 1 == text.size && text[n]? == some '\n')
  | .lineEnd => n == text.size || text[n]? == some '\n'
  | .boundary ascii negated =>
    let before := n != 0 && isWordAt text ascii (n - 1)
    text.size != 0 && ((before != isWordAt text ascii n) != negated)

def foldChar (o : Options) (c : Char) : Nat :=
  if !o.ignoreCase then c.toNat
  else if o.ascii then asciiSmall c.toNat
  else Text.smallCode c.toNat

def sameSpan (text : Array Char) (o : Options) (start n : Nat) : Nat → Bool
  | 0 => true
  | count + 1 =>
    match text[start]?, text[n]? with
    | some c, some d => foldChar o c == foldChar o d && sameSpan text o (start + 1) (n + 1) count
    | _, _ => false

def mayFollow (count : Nat) : Option Nat → Bool
  | none => true
  | some most => count < most

/-- Tries a further round first. `last` is where the round before began, once enough are done. -/
def greedily (body : Way) (least : Nat) (most : Option Nat) (k : Rest) : Nat → Nat → Option Nat → Rest
  | 0, _, _, _ => none
  | fuel + 1, count, last, s =>
    if count < least then body (greedily body least most k fuel (count + 1) last) s
    else if mayFollow count most && last != some s.position then
      (body (greedily body least most k fuel (count + 1) (some s.position)) s).orElse fun _ => k s
    else k s

/-- Tries to go on without a further round first. -/
def lazily (body : Way) (least : Nat) (most : Option Nat) (k : Rest) : Nat → Nat → Option Nat → Rest
  | 0, _, _, _ => none
  | fuel + 1, count, last, s =>
    if count < least then body (lazily body least most k fuel (count + 1) last) s
    else
      (k s).orElse fun _ =>
        if mayFollow count most && last != some s.position then
          body (lazily body least most k fuel (count + 1) (some s.position)) s
        else none

/-- Does as many rounds as there are, each in its first way. -/
def possessively (body : Way) (least : Nat) (most : Option Nat) : Nat → Nat → Option Nat → Rest
  | 0, _, _, _ => none
  | fuel + 1, count, last, s =>
    if count < least then (body some s).bind (possessively body least most fuel (count + 1) last)
    else if mayFollow count most && last != some s.position then
      match body some s with
      | some s' => possessively body least most fuel (count + 1) (some s.position) s'
      | none => some s
    else some s

def way (text : Array Char) : Pattern → Way
  | .empty, k, s => k s
  | .char set, k, s =>
    match text[s.position]? with
    | some c => if set.contains c then k { s with position := s.position + 1 } else none
    | none => none
  | .anchor a, k, s => if a.holds text s.position then k s else none
  | .seq p q, k, s => way text p (way text q k) s
  | .alt p q, k, s => (way text p k s).orElse fun _ => way text q k s
  | .group none p, k, s => way text p k s
  | .group (some number) p, k, s => way text p (fun t => k (t.keep number s.position)) s
  | .repetition p least most greed, k, s =>
    let fuel := least + (text.size - s.position) + 2
    match greed with
    | .greedy => greedily (way text p) least most k fuel 0 none s
    | .lazy => lazily (way text p) least most k fuel 0 none s
    | .possessive => (possessively (way text p) least most fuel 0 none s).bind k
  | .again number o, k, s =>
    match s.group? number with
    | some (first, last) =>
      if sameSpan text o first s.position (last - first) then
        k { s with position := s.position + (last - first) }
      else none
    | none => none
  | .ahead p negated, k, s =>
    match way text p some s, negated with
    | some t, false => k { t with position := s.position }
    | none, true => k s
    | _, _ => none
  | .behind p width negated, k, s =>
    let found :=
      if width ≤ s.position then way text p some { s with position := s.position - width } else none
    match found, negated with
    | some t, false => k { t with position := s.position }
    | none, true => k s
    | _, _ => none
  | .atomic p, k, s => (way text p some s).bind k
  | .ifGroup number yes no, k, s =>
    if (s.group? number).isSome then way text yes k s else way text no k s

def endFrom? (p : Pattern) (text : Array Char) (start : Nat) (mayBeEmpty : Bool) : Option Nat :=
  (way text p (fun s => if mayBeEmpty || s.position != start then some s else none) ⟨start, []⟩).map
    Place.position

def searchFrom (p : Pattern) (text : Array Char) (start : Nat) (mayBeEmpty : Bool) :
    Nat → Option (Nat × Nat)
  | 0 => (endFrom? p text start mayBeEmpty).map fun last => (start, last)
  | count + 1 =>
    match endFrom? p text start mayBeEmpty with
    | some last => some (start, last)
    | none => searchFrom p text (start + 1) true count

/-- Matches from left to right; after an empty one, the next at the same place is not empty. -/
def spansFrom (p : Pattern) (text : Array Char) : Nat → Nat → Bool → List (Nat × Nat)
  | 0, _, _ => []
  | fuel + 1, start, mayBeEmpty =>
    match searchFrom p text start mayBeEmpty (text.size - start) with
    | none => []
    | some (first, last) => (first, last) :: spansFrom p text fuel last (first != last)

def occursIn (p : Pattern) (text : String) : Bool :=
  let cs := text.toList.toArray
  (searchFrom p cs 0 true cs.size).isSome

def spans (p : Pattern) (text : Array Char) : List (Nat × Nat) :=
  spansFrom p text (2 * text.size + 2) 0 true

end VirtualShell.Pattern
