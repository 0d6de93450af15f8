/-! # Tables of code point ranges -/
namespace VirtualShell.Text
set_option autoImplicit false

def searchRanges (table : Array (Nat × Nat)) (n : Nat) : Nat → Nat → Nat → Bool
  | 0, _, _ => false
  | fuel + 1, low, high =>
    if low < high then
      let middle := (low + high) / 2
      match table[middle]? with
      | none => false
      | some (first, last) =>
        if n < first then searchRanges table n fuel low middle
        else if last < n then searchRanges table n fuel (middle + 1) high
        else true
    else false

/-- Whether `n` lies in one of the ranges of a table in ascending order. -/
def inRanges (table : Array (Nat × Nat)) (n : Nat) : Bool :=
  searchRanges table n (table.size + 1) 0 table.size

end VirtualShell.Text
