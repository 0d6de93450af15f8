import VirtualShell.Decimal.Exact

/-!
# Dates of the day count

A moment is a number of seconds since the start of 1970, without leap seconds and in universal time.
-/
namespace VirtualShell.Calendar
set_option autoImplicit false

structure Stamp where
  year : Int
  month : Nat
  day : Nat
  hour : Nat
  minute : Nat
  second : Nat
  deriving DecidableEq, Repr

inductive Failure where
  | notANumber
  | outOfRange
  | yearOutOfRange
  deriving DecidableEq, Repr

/-- Year, month and day of a day number, by four-hundred-year eras whose years start in March. -/
def civil (days : Int) : Int × Nat × Nat :=
  let shifted := days + 719468
  let era := shifted / 146097
  let dayOfEra := (shifted % 146097).toNat
  let yearOfEra :=
    (dayOfEra - dayOfEra / 1460 + dayOfEra / 36524 - dayOfEra / 146096) / 365
  let dayOfYear := dayOfEra - (365 * yearOfEra + yearOfEra / 4 - yearOfEra / 100)
  let shiftedMonth := (5 * dayOfYear + 2) / 153
  let day := dayOfYear - (153 * shiftedMonth + 2) / 5 + 1
  let month := if shiftedMonth < 10 then shiftedMonth + 3 else shiftedMonth - 9
  (era * 400 + yearOfEra + (if month ≤ 2 then 1 else 0), month, day)

def ofSeconds (seconds : Int) : Stamp :=
  let (year, month, day) := civil (seconds / 86400)
  let rest := (seconds % 86400).toNat
  { year, month, day, hour := rest / 3600, minute := rest / 60 % 60, second := rest % 60 }

def ofMoment (x : Float) : Except Failure Stamp :=
  match Exact.ofFloat x with
  | .notANumber => .error .notANumber
  | .infinite _ => .error .outOfRange
  | .finite num power =>
    let seconds := num / twoTo power
    if seconds < -(twoTo 63) || twoTo 63 ≤ seconds then .error .outOfRange
    else
      let stamp := ofSeconds seconds
      if stamp.year - 1900 < -(twoTo 31) || twoTo 31 ≤ stamp.year - 1900 then .error .yearOutOfRange
      else .ok stamp

def monthNames : List String :=
  ["Jan", "Feb", "Mar", "Apr", "May", "Jun", "Jul", "Aug", "Sep", "Oct", "Nov", "Dec"]

def twoDigits (n : Nat) : String := (if n < 10 then "0" else "") ++ toString n

def Stamp.short (s : Stamp) : String :=
  monthNames.getD (s.month - 1) "" ++ " " ++ twoDigits s.day ++ " " ++ twoDigits s.hour ++ ":" ++
    twoDigits s.minute

def Stamp.full (s : Stamp) : String :=
  toString s.year ++ "-" ++ twoDigits s.month ++ "-" ++ twoDigits s.day ++ " " ++
    twoDigits s.hour ++ ":" ++ twoDigits s.minute ++ ":" ++ twoDigits s.second

end VirtualShell.Calendar
