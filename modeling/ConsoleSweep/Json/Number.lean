/-
  Numbers as JSON has them, whole or floating, and the readings of a value as one.
-/
import ConsoleSweep.Fault
import ConsoleSweep.Json.Parser
import ConsoleSweep.Text.Blank
import ConsoleSweep.Text.Digit

namespace ConsoleSweep

/-- A whole or a floating-point number. -/
inductive Number where
  | int (n : Int)
  | real (x : Float)
  deriving Repr, Inhabited

namespace Number

/-- The number as a JSON value. -/
def toJson : Number → Json
  | .int n => .int n
  | .real x => .real x

/-- The nearest floating-point number; infinity if it is too large. -/
def toFloat : Number → Float
  | .int n => (Decimal.ofInt? n).getD (if n < 0 then -1.0 / 0.0 else 1.0 / 0.0)
  | .real x => x

/-- The sum; it is whole if both parts are. -/
def add : Number → Number → Number
  | .int a, .int b => .int (a + b)
  | a, b => .real (a.toFloat + b.toFloat)

/-- The difference; it is whole if both parts are. -/
def sub : Number → Number → Number
  | .int a, .int b => .int (a - b)
  | a, b => .real (a.toFloat - b.toFloat)

instance : Add Number := ⟨add⟩

instance : Sub Number := ⟨sub⟩

instance : Zero Number := ⟨.int 0⟩

/-- Whether a number is a floating-point number, or is near one. -/
def isFloatable : Number → Bool
  | .int n => (Decimal.ofInt? n).isSome
  | .real _ => true

/-- Whether two numbers have a sum and a difference: both are whole, or both can be floating-point
numbers. -/
def isSummable : Number → Number → Bool
  | .int _, .int _ => true
  | a, b => a.isFloatable && b.isFloatable

/-- How a whole number stands to an exact floating-point number. -/
def compareInt (n : Int) : Decimal.Binary → Option Ordering
  | .nan => none
  | .infinite negative => some (if negative then .gt else .lt)
  | .finite negative m e =>
    let (num, den) := Decimal.twoPow e
    let scaled : Int := m * num
    some (compare (n * den) (if negative then -scaled else scaled))

/-- How two numbers stand to each other, by their exact values; nothing compares to what is not a
number. -/
def compare? : Number → Number → Option Ordering
  | .int a, .int b => some (compare a b)
  | .int a, .real y => compareInt a (.ofFloat y)
  | .real x, .int b => (compareInt b (.ofFloat x)).map Ordering.swap
  | .real x, .real y =>
    if x < y then some .lt else if x == y then some .eq else if y < x then some .gt else none

/-- Whether a number is below another. -/
def lt (a b : Number) : Bool :=
  a.compare? b == some .lt

/-- Whether a number is not above another. -/
def le (a b : Number) : Bool :=
  a.lt b || a.compare? b == some .eq

instance : LT Number := ⟨fun a b => a.lt b = true⟩

instance : DecidableLT Number := fun a b => inferInstanceAs (Decidable (a.lt b = true))

/-- A number, or a truth value as 0 or 1. -/
def ofJson? : Json → Option Number
  | .int n => some (.int n)
  | .real x => some (.real x)
  | .bool b => some (.int (if b then 1 else 0))
  | _ => none

/-- A value as a number, which it has to be. -/
def ofJson (v : Json) : Except Fault Number :=
  match ofJson? v with
  | some n => .ok n
  | none => .error .badType

/-- Whether a value is a number above zero. -/
def isPositive (v : Json) : Except Fault Bool :=
  match ofJson? v with
  | some (.int n) => .ok (0 < n)
  | some (.real x) => .ok (0.0 < x)
  | none => .error .badType

/-- The difference of two numbers that have one. -/
def minus (a b : Number) : Except Fault Number :=
  if a.isSummable b then .ok (a - b) else .error .tooLarge

/-- The values of the digits in a row with single underscores between them. -/
def digitRow? : List Char → Option (List Nat)
  | [] => none
  | [c] => (Text.digitValue? c).map ([·])
  | c :: '_' :: rest => do return (← Text.digitValue? c) :: (← digitRow? rest)
  | c :: rest => do return (← Text.digitValue? c) :: (← digitRow? rest)

/-- A whole number written in decimal digits of any script, with a sign or without. -/
def readInt? (text : List Char) : Option Int :=
  let (negative, body) := match Text.trimSpace text with
    | '-' :: rest => (true, rest)
    | '+' :: rest => (false, rest)
    | rest => (false, rest)
  match digitRow? body with
  | some ds =>
    if Json.digitLimit < ds.length then none
    else
      let n : Nat := ds.foldl (fun n d => n * 10 + d) 0
      some (if negative then -(n : Int) else n)
  | none => none

/-- A value as a whole number: a floating-point number loses its fraction, a string is read. -/
def toInt : Json → Except Fault Int
  | .int n => .ok n
  | .bool b => .ok (if b then 1 else 0)
  | .real x =>
    match (Decimal.Binary.ofFloat x).truncate? with
    | some n => .ok n
    | none => if x.isNaN then .error (.badValue "not a number") else .error .tooLarge
  | .str s =>
    match readInt? s.toList with
    | some n => .ok n
    | none => .error (.badValue "not a whole number")
  | _ => .error .badType

end Number

end ConsoleSweep
