/-
  Floating-point numbers as exact values: a sign and a natural number times a
  power of two.
-/
namespace ConsoleSweep.Decimal

/-- A floating-point number taken apart. A finite one is `mantissa * 2 ^ exponent` with its
sign. -/
inductive Binary where
  | nan
  | infinite (negative : Bool)
  | finite (negative : Bool) (mantissa : Nat) (exponent : Int)
  deriving DecidableEq, Repr

/-- The exponent of the numbers next to zero. -/
def leastExponent : Int := -1074

/-- The value that a double-precision bit pattern stands for. -/
def Binary.ofBits (bits : Nat) : Binary :=
  let negative := bits / Nat.pow 2 63 % 2 == 1
  let exponent : Nat := bits / Nat.pow 2 52 % Nat.pow 2 11
  let fraction := bits % Nat.pow 2 52
  if exponent = 2047 then if fraction = 0 then .infinite negative else .nan
  else if exponent = 0 then .finite negative fraction leastExponent
  else .finite negative (fraction + Nat.pow 2 52) (leastExponent + exponent - 1)

/-- The value of a floating-point number. -/
def Binary.ofFloat (x : Float) : Binary :=
  Binary.ofBits x.toBits.toNat

/-- A power of two as a fraction: numerator and denominator. -/
def twoPow (e : Int) : Nat × Nat :=
  if 0 ≤ e then (Nat.pow 2 e.toNat, 1) else (1, Nat.pow 2 (-e).toNat)

/-- A power of ten as a fraction: numerator and denominator. -/
def tenPow (e : Int) : Nat × Nat :=
  if 0 ≤ e then (Nat.pow 10 e.toNat, 1) else (1, Nat.pow 10 (-e).toNat)

/-- The quotient rounded to the nearest natural number, a half to the even one. -/
def roundDiv (num den : Nat) : Nat :=
  let q := num / den
  let r := num % den
  if 2 * r < den then q else if den < 2 * r then q + 1 else if q % 2 = 0 then q else q + 1

/-- The integer part of a finite number, toward zero. -/
def Binary.truncate? : Binary → Option Int
  | .finite negative m e =>
    let n := m * (twoPow e).1 / (twoPow e).2
    some (if negative then -n else n)
  | _ => none

/-- The greatest integer that is not above a finite number. -/
def Binary.floor? : Binary → Option Int
  | .finite negative m e =>
    let num := m * (twoPow e).1
    some (Int.fdiv (if negative then -num else num) (twoPow e).2)
  | _ => none

/-- The nearest floating-point number to `digits * 10 ^ exponent`; infinity if it is too large. -/
def toFloat (digits : Nat) (exponent : Int) : Float :=
  let size := (Nat.toDigits 10 digits).length
  if digits = 0 || exponent + size < -400 then 0.0
  else if 400 < exponent + size then 1.0 / 0.0
  else if 0 ≤ exponent then Float.ofScientific digits false exponent.toNat
  else Float.ofScientific digits true (-exponent).toNat

/-- `toFloat` with a sign. -/
def signedFloat (negative : Bool) (digits : Nat) (exponent : Int) : Float :=
  if negative then -(toFloat digits exponent) else toFloat digits exponent

/-- The nearest floating-point number to an integer, if it is not too large. -/
def ofInt? (n : Int) : Option Float :=
  let x := signedFloat (n < 0) n.natAbs 0
  match Binary.ofFloat x with
  | .finite .. => some x
  | _ => none

end ConsoleSweep.Decimal
