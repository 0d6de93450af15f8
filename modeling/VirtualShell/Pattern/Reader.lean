import VirtualShell.Pattern.GroupHead
import VirtualShell.Pattern.Start

/-!
# Reading patterns

The reader goes through the pattern once: alternatives are sequences of items, an item may be repeated,
and a group holds alternatives again.
-/
namespace VirtualShell.Pattern
set_option autoImplicit false

def readBounds? : Reading (Option (Nat × Option Nat)) := do
  let start := (← get).rest
  if (← peek) == some (.plain '\x7d') then return none
  let low ← readWhile Char.isDigit start.length
  let high ← if ← accept ',' then readWhile Char.isDigit start.length else pure low
  if !(← accept '\x7d') then
    setRest start
    return none
  let least := valueIn 10 low
  let most := valueIn 10 high
  if least ≥ 0xffffffff || most ≥ 0xffffffff then throw .repeatTooLarge
  if high.isEmpty then return some (least, none)
  if most < least then invalid
  return some (least, some most)

/-- Whether an item may be repeated: a place may not, and a repetition neither. -/
def isRepeatable : Pattern → Bool
  | .anchor _ | .repetition .. => false
  | _ => true

def sequenceOf : List Pattern → Pattern
  | [] => .empty
  | [p] => p
  | p :: ps => .seq (sequenceOf ps) p

def readGreed : Reading Greed := do
  if ← accept '?' then return .lazy
  else if ← accept '+' then return .possessive
  else return .greedy

def repeatLast (items : List Pattern) (least : Nat) (most : Option Nat) : Reading (List Pattern) := do
  match items with
  | [] => invalid
  | p :: ps =>
    if !isRepeatable p then invalid
    return .repetition p least most (← readGreed) :: ps

def skipLine : Nat → Reading Unit
  | 0 => return ()
  | fuel + 1 => do
    match ← next with
    | none => return ()
    | some t => if t == .plain '\n' then return () else skipLine fuel

def isPatternSpace (c : Char) : Bool := c == ' ' || (9 ≤ c.toNat && c.toNat ≤ 13)

mutual

def readAlternatives (o : Options) (top first : Bool) : Nat → Reading Pattern
  | 0 => invalid
  | fuel + 1 => do
    let p ← readSequence o top first [] fuel
    if ← accept '|' then
      let progress ← get
      let o := if top then progress.options else o
      return .alt p (← readAlternatives o top false fuel)
    else return p

def readSequence (o : Options) (top first : Bool) (items : List Pattern) : Nat → Reading Pattern
  | 0 => invalid
  | fuel + 1 => do
    match ← peek with
    | none | some (.plain '|') | some (.plain ')') => return sequenceOf items
    | some .dangling => invalid
    | some (.escape c) =>
      let _ ← next
      readSequence o top first ((← readEscape o c) :: items) fuel
    | some (.plain c) =>
      let _ ← next
      if o.verbose && isPatternSpace c then readSequence o top first items fuel
      else if o.verbose && c == '#' then
        skipLine fuel
        readSequence o top first items fuel
      else if c == '[' then
        let negated ← accept '^'
        let set ← readSet [] fuel
        readSequence o top first (.char ⟨set, negated, o⟩ :: items) fuel
      else if c == '.' then
        let set : CharSet := ⟨if o.dotAll then [] else [.code 10], true, { o with ignoreCase := false }⟩
        readSequence o top first (.char set :: items) fuel
      else if c == '^' then
        readSequence o top first (.anchor (if o.multiline then .lineStart else .textStart) :: items) fuel
      else if c == '$' then
        readSequence o top first (.anchor (if o.multiline then .lineEnd else .lastLineEnd) :: items) fuel
      else if c == '*' then readSequence o top first (← repeatLast items 0 none) fuel
      else if c == '+' then readSequence o top first (← repeatLast items 1 none) fuel
      else if c == '?' then readSequence o top first (← repeatLast items 0 (some 1)) fuel
      else if c == '\x7b' then
        match ← readBounds? with
        | some (least, most) => readSequence o top first (← repeatLast items least most) fuel
        | none => readSequence o top first (one o (.code c.toNat) :: items) fuel
      else if c == '(' then
        match ← readHead o fuel with
        | .global =>
          if !first || !items.isEmpty then invalid
          let o := (← get).options
          readSequence o top first items fuel
        | .done none => readSequence o top first items fuel
        | .done (some p) => readSequence o top first (p :: items) fuel
        | head => readSequence o top first ((← readGroup o head fuel) :: items) fuel
      else readSequence o top first (one o (.code c.toNat) :: items) fuel

def readGroup (o : Options) (head : GroupHead) : Nat → Reading Pattern
  | 0 => invalid
  | fuel + 1 => do
    match head with
    | .capture name =>
      let number ← openGroup name
      let p ← readAlternatives o false false fuel
      expect ')'
      closeGroup number p
      return .group (some number) p
    | .plain o =>
      let p ← readAlternatives o false false fuel
      expect ')'
      return .group none p
    | .atomic =>
      let p ← readAlternatives o false false fuel
      expect ')'
      return .atomic p
    | .look false negated =>
      let p ← readAlternatives o false false fuel
      expect ')'
      return .ahead p negated
    | .look true negated =>
      let before := (← get).behindFrom
      modify fun p => { p with behindFrom := some (before.getD p.groupCount) }
      let p ← readAlternatives o false false fuel
      modify fun p => { p with behindFrom := before }
      expect ')'
      let width := widthOf (← get).widths p
      if width.most != some width.least then modify fun p => { p with unevenBehind := true }
      return .behind p width.least negated
    | .condition number =>
      let yes ← readSequence o false false [] fuel
      let no ← if ← accept '|' then readSequence o false false [] fuel else pure .empty
      expect ')'
      return .ifGroup number yes no
    | .done _ | .global => invalid

end

def repeats : Pattern → Bool
  | .empty | .char _ | .anchor _ | .again .. => false
  | .seq p q | .alt p q | .ifGroup _ p q => repeats p || repeats q
  | .group _ p | .atomic p | .ahead p _ | .behind p _ _ => repeats p
  | .repetition .. => true

def readAll (fuel : Nat) (o : Options) : Reading Pattern := do
  setRest (← get).rest
  let p ← readAlternatives o true true fuel
  let done ← get
  if done.ascii && done.unicode then throw .mixedAlphabets
  if !done.rest.isEmpty then invalid
  if done.asked.any fun number => done.groupCount ≤ number then invalid
  if done.unevenBehind then invalid
  if done.template && repeats p then invalid
  return guarded done.options.ascii p

def read (text : String) (ignoreCase : Bool) : Except Fault Pattern :=
  let ts := tokens text.toList
  let o : Options := { Options.none with ignoreCase := ignoreCase }
  let start : Progress :=
    { rest := ts, options := o, ascii := false, unicode := false, template := false, widths := []
      names := [], behindFrom := none, asked := [], unevenBehind := false }
  (readAll (4 * ts.length + 8) o).run' start

end VirtualShell.Pattern
