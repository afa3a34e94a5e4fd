/-
  The decimal text of floating-point numbers.

  `shortest` gives the fewest digits that read back as the number, and of those the
  nearest to it. `text` lays them out: positional from `0.0001` up to below `1e+16`,
  always with a fraction, and with an exponent outside of that. `fixed` gives a
  number of decimal places instead, rounded from the exact value, a half to even.
-/
import ConsoleSweep.Decimal.Binary
import ConsoleSweep.Text.Basic

namespace ConsoleSweep.Decimal

/-- The numbers that round to a given one: all between `low / den` and `high / den`, the ends
included if `closed`; `mid / den` is the number itself. -/
structure Reach where
  low : Nat
  mid : Nat
  high : Nat
  den : Nat
  closed : Bool

/-- The numbers that round to `m * 2 ^ e`. Below a power of two the neighbour is closer. -/
def Reach.of (m : Nat) (e : Int) : Reach :=
  let (num, den) := twoPow (e - 2)
  let low := if m = Nat.pow 2 52 && leastExponent < e then 4 * m - 1 else 4 * m - 2
  ⟨low * num, 4 * m * num, (4 * m + 2) * num, den, m % 2 == 0⟩

/-- Whether `c * 10 ^ e` is among them. -/
def Reach.has (r : Reach) (c : Nat) (e : Int) : Bool :=
  let (num, den) := tenPow e
  let x := c * num * r.den
  if r.closed then r.low * den ≤ x && x ≤ r.high * den else r.low * den < x && x < r.high * den

/-- Twice the distance of `c * 10 ^ e` from the number, up to a common factor. -/
def Reach.distance (r : Reach) (c : Nat) (e : Int) : Nat :=
  let (num, den) := tenPow e
  ((c * num * r.den : Int) - r.mid * den).natAbs

/-- The exponent of the first decimal digit of `num / den`. -/
def leadingExponent (num den : Nat) : Int :=
  if den ≤ num then ((Nat.toDigits 10 (num / den)).length : Int) - 1
  else
    let size := (Nat.toDigits 10 (den / num)).length
    if den ≤ num * Nat.pow 10 (size - 1) then 1 - (size : Int) else -(size : Int)

/-- The nearest number with `e` as the exponent of its last digit that is in reach. -/
def Reach.nearest? (r : Reach) (e : Int) : Option Nat :=
  let (num, den) := tenPow e
  let c := r.mid * den / (num * r.den)
  match r.has c e, r.has (c + 1) e with
  | false, false => none
  | true, false => some c
  | false, true => some (c + 1)
  | true, true =>
    if r.distance c e < r.distance (c + 1) e then some c
    else if r.distance (c + 1) e < r.distance c e then some (c + 1)
    else some (if c % 2 = 0 then c else c + 1)

/-- The first grid with a number in reach, from coarse to fine. -/
def Reach.search (r : Reach) (e : Int) : Nat → Nat × Int
  | 0 => (r.mid / r.den, 0)
  | steps + 1 =>
    match r.nearest? e with
    | some c => (c, e)
    | none => r.search (e - 1) steps

/-- A decimal number without zeros at its end. -/
def stripZeros : Nat → Nat × Int → Nat × Int
  | 0, d => d
  | limit + 1, (c, e) => if c % 10 = 0 then stripZeros limit (c / 10, e + 1) else (c, e)

/-- The shortest decimal number that reads back as `m * 2 ^ e`, for a positive `m`: its digits and
the exponent of the last one. -/
def shortest (m : Nat) (e : Int) : Nat × Int :=
  let r := Reach.of m e
  stripZeros 17 (r.search (leadingExponent r.mid r.den) 18)

/-- Whether a number whose point stands after `point` digits is written without an exponent. -/
def isPositional (point : Int) : Bool :=
  -4 < point && point ≤ 16

/-- The text of `digits * 10 ^ exponent`. -/
def layout (digits : Nat) (exponent : Int) : String :=
  let ds := Nat.toDigits 10 digits
  let point := exponent + ds.length
  if isPositional point then
    if point ≤ 0 then
      String.ofList ('0' :: '.' :: List.replicate (-point).toNat '0' ++ ds)
    else if ds.length ≤ point then
      String.ofList (ds ++ List.replicate (point - ds.length).toNat '0' ++ ['.', '0'])
    else String.ofList (ds.take point.toNat ++ '.' :: ds.drop point.toNat)
  else
    let fraction := if ds.length = 1 then [] else '.' :: ds.drop 1
    let sign := if point - 1 < 0 then "-" else "+"
    String.ofList (ds.take 1 ++ fraction) ++ "e" ++ sign ++
      Text.padLeft 2 '0' (Text.ofNat (point - 1).natAbs)

/-- The words for the numbers that have no digits. -/
structure Words where
  nan : String
  infinity : String

/-- The words in plain text. -/
def plainWords : Words := ⟨"nan", "inf"⟩

/-- The text of a floating-point number. -/
def textWith (words : Words) (x : Float) : String :=
  match Binary.ofFloat x with
  | .nan => words.nan
  | .infinite negative => (if negative then "-" else "") ++ words.infinity
  | .finite negative m e =>
    let (digits, exponent) := if m = 0 then (0, 0) else shortest m e
    (if negative then "-" else "") ++ layout digits exponent

/-- The text of a floating-point number in plain text. -/
def text (x : Float) : String :=
  textWith plainWords x

/-- The number of units of `10 ^ -places` nearest to `m * 2 ^ e`. -/
def unitsOf (places m : Nat) (e : Int) : Nat :=
  roundDiv (m * (twoPow e).1 * Nat.pow 10 places) (twoPow e).2

/-- The text with a fixed number of decimal places, at least one. -/
def fixed (places : Nat) (x : Float) : String :=
  match Binary.ofFloat x with
  | .nan => plainWords.nan
  | .infinite negative => (if negative then "-" else "") ++ plainWords.infinity
  | .finite negative m e =>
    let ds := (Text.padLeft (places + 1) '0' (Text.ofNat (unitsOf places m e))).toList
    (if negative then "-" else "") ++
      String.ofList (ds.take (ds.length - places) ++ '.' :: ds.drop (ds.length - places))

/-- The number rounded to decimal places. -/
def roundPlaces (places : Nat) (x : Float) : Float :=
  match Binary.ofFloat x with
  | .finite negative m e => signedFloat negative (unitsOf places m e) (-places)
  | _ => x

/-- The nearest number to `m * 2 ^ e` with `places + 1` digits: the digits, and the exponent of the
first one. -/
def significant (places m : Nat) (e : Int) : Nat × Int :=
  if m = 0 then (0, 0)
  else
    let num := m * (twoPow e).1
    let den := (twoPow e).2
    let k := leadingExponent num den
    let unit := tenPow (k - places)
    let c := roundDiv (num * unit.2) (den * unit.1)
    if c = Nat.pow 10 (places + 1) then (c / 10, k + 1) else (c, k)

end ConsoleSweep.Decimal
