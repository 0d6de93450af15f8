import VirtualShell.Pattern.Syntax

/-!
# Widths

How many characters a part can match follows from its form. A lookbehind needs a part with one width.
-/
namespace VirtualShell.Pattern
set_option autoImplicit false

/-- The least and the greatest number of characters that a part matches; no greatest is unbounded. -/
structure Width where
  least : Nat
  most : Option Nat
  deriving DecidableEq, Repr

namespace Width

def zero : Width := ⟨0, some 0⟩

def one : Width := ⟨1, some 1⟩

def plus (v w : Width) : Width :=
  ⟨v.least + w.least, match v.most, w.most with
    | some a, some b => some (a + b)
    | _, _ => none⟩

def either (v w : Width) : Width :=
  ⟨min v.least w.least, match v.most, w.most with
    | some a, some b => some (max a b)
    | _, _ => none⟩

def times (w : Width) (least : Nat) (most : Option Nat) : Width :=
  ⟨w.least * least, match w.most, most with
    | some a, some b => some (a * b)
    | some 0, none => some 0
    | _, _ => none⟩

end Width

def widthOf (widths : List (Option Width)) : Pattern → Width
  | .empty | .anchor _ | .ahead .. | .behind .. => .zero
  | .char _ => .one
  | .seq p q => (widthOf widths p).plus (widthOf widths q)
  | .alt p q => (widthOf widths p).either (widthOf widths q)
  | .group _ p | .atomic p => widthOf widths p
  | .repetition p least most _ => (widthOf widths p).times least most
  | .again number _ => ((widths[number - 1]?).join).getD .zero
  | .ifGroup _ yes no => (widthOf widths yes).either (widthOf widths no)

end VirtualShell.Pattern
