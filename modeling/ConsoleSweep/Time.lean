/-
  Moments as calendar dates, in universal time. A moment is a number of seconds
  since the start of 1970, whole or floating.
-/
import ConsoleSweep.Json.Number

namespace ConsoleSweep.Time

open ConsoleSweep.Text

/-- A date and a time of day. -/
structure Civil where
  year : Int
  month : Nat
  day : Nat
  hour : Nat
  minute : Nat
  second : Nat
  deriving DecidableEq, Repr

/-- The date of a day counted from the start of 1970. The years are counted from March, so that
the day added in a leap year is the last. -/
def dateOfDay (day : Int) : Int × Nat × Nat :=
  let z := day + 719468
  let era := z.fdiv 146097
  let dayOfEra := (z - era * 146097).toNat
  let yearOfEra := (dayOfEra - dayOfEra / 1460 + dayOfEra / 36524 - dayOfEra / 146096) / 365
  let dayOfYear := dayOfEra - (365 * yearOfEra + yearOfEra / 4 - yearOfEra / 100)
  let shifted := (5 * dayOfYear + 2) / 153
  let month := if shifted < 10 then shifted + 3 else shifted - 9
  let year := yearOfEra + era * 400 + (if month ≤ 2 then 1 else 0)
  (year, month, dayOfYear - (153 * shifted + 2) / 5 + 1)

/-- The date and time of day after a number of seconds. -/
def civil (seconds : Int) : Civil :=
  let (year, month, day) := dateOfDay (seconds.fdiv 86400)
  let rest := (seconds.fmod 86400).toNat
  ⟨year, month, day, rest / 3600, rest / 60 % 60, rest % 60⟩

/-- Two digits. -/
def two (n : Nat) : String :=
  padLeft 2 '0' (ofNat n)

/-- `2023-11-14` -/
def Civil.date (c : Civil) : String :=
  padLeft 4 '0' (ofInt c.year) ++ "-" ++ two c.month ++ "-" ++ two c.day

/-- `22:13:20` -/
def Civil.clock (c : Civil) : String :=
  two c.hour ++ ":" ++ two c.minute ++ ":" ++ two c.second

/-- A fraction of a second in millionths, rounded to the nearest one. -/
def toMicros (fraction : Float) : Int :=
  match Decimal.Binary.ofFloat (fraction * 1000000.0) with
  | .finite negative m e =>
    if negative then -(Decimal.unitsOf 0 m e : Int) else (Decimal.unitsOf 0 m e : Int)
  | _ => 0

/-- Seconds and millionths, with the millionths between zero and a whole second. -/
def carry (whole micros : Int) : Int × Nat :=
  if 1000000 ≤ micros then (whole + 1, (micros - 1000000).toNat)
  else if micros < 0 then (whole - 1, (micros + 1000000).toNat)
  else (whole, micros.toNat)

/-- Beyond this number of seconds a moment is out of range. -/
def secondLimit : Nat := 9223372036854775808

/-- A whole number of seconds that is in range. -/
def inRange (n : Int) : Except Fault Int :=
  if secondLimit < n.natAbs || n = secondLimit then .error .tooLarge else .ok n

/-- The seconds and millionths of a moment, rounded to the nearest millionth. -/
def split : Number → Except Fault (Int × Nat)
  | .int n => do return (← inRange n, 0)
  | .real x =>
    match (Decimal.Binary.ofFloat x).truncate? with
    | none => .error (if x.isNaN then .badValue "not a number" else .tooLarge)
    | some whole =>
      match Decimal.ofInt? whole with
      | none => .error .tooLarge
      | some w =>
        if secondLimit < whole.natAbs then .error .tooLarge
        else .ok (carry whole (toMicros (x - w)))

/-- The first and the last second that the operating system has a date for. -/
def firstSecond : Int := -67768040609740800
def lastSecond : Int := 67768036191676799

/-- The date and time of day after a number of seconds, as far as the operating system knows it. -/
def systemCivil (seconds : Int) : Except Fault Civil :=
  if seconds < firstSecond || lastSecond < seconds then .error .farTime else .ok (civil seconds)

/-- The date and time of day after a number of seconds, in a year of at most four digits. -/
def shortCivil (seconds : Int) : Except Fault Civil := do
  let c ← systemCivil seconds
  if c.year < 1 || 9999 < c.year then .error (.badValue "year out of range") else .ok c

/-- `2023-11-14T22:13:20`, with six decimal places if there is a fraction. -/
def iso (x : Number) : Except Fault String := do
  let (seconds, micros) ← split x
  let c ← shortCivil seconds
  .ok (c.date ++ "T" ++ c.clock ++
    (if micros = 0 then "" else "." ++ padLeft 6 '0' (ofNat micros)))

/-- `iso` for a local time. Whether the clocks were changed is looked up a day before, which has
to be in the calendar too. -/
def localIso (x : Number) : Except Fault String := do
  let text ← iso x
  let (seconds, _) ← split x
  let _ ← shortCivil (seconds - 86400)
  return text

/-- The whole seconds of a moment. -/
def seconds : Number → Except Fault Int
  | .int n => inRange n
  | .real x =>
    match (Decimal.Binary.ofFloat x).floor? with
    | none => .error (if x.isNaN then .badValue "not a number" else .tooLarge)
    | some n => if secondLimit < n.natAbs then .error .tooLarge else .ok n

/-- `2023-11-14T22:13:20Z` -/
def utc (x : Number) : Except Fault String := do
  let c ← systemCivil (← seconds x)
  .ok (ofInt c.year ++ "-" ++ two c.month ++ "-" ++ two c.day ++ "T" ++ c.clock ++ "Z")

/-- `20231114` -/
def compactDate (x : Number) : Except Fault String := do
  let (s, _) ← split x
  let c ← shortCivil s
  .ok (ofInt c.year ++ two c.month ++ two c.day)

/-- `2023-11-14 22:13:20,000` -/
def logStamp (x : Number) : String :=
  match seconds x with
  | .ok s =>
    let c := civil s
    let fraction := x.toFloat - x.toFloat.floor
    let millis := match (Decimal.Binary.ofFloat (fraction * 1000.0)).truncate? with
      | some n => n.toNat
      | none => 0
    c.date ++ " " ++ c.clock ++ "," ++ padLeft 3 '0' (ofNat millis)
  | .error _ => ""

end ConsoleSweep.Time
