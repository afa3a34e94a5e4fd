/-
  Reading a floating-point number from a text: decimal digits with a point and an
  exponent, or one of the words for infinity and for no number, in any case.
-/
import ConsoleSweep.Json.Parser
import ConsoleSweep.Text.Blank

namespace ConsoleSweep.Decimal

open ConsoleSweep.Json (isDigit digitsValue exponent?)

/-- The digits before and after the point, and what follows; there is at least one digit. -/
def pointDigits? (text : List Char) : Option (List Char × List Char × List Char) :=
  let whole := text.takeWhile isDigit
  let rest := text.dropWhile isDigit
  let (fraction, rest) := match rest with
    | '.' :: tail => (tail.takeWhile isDigit, tail.dropWhile isDigit)
    | _ => ([], rest)
  if whole.isEmpty && fraction.isEmpty then none else some (whole, fraction, rest)

/-- A number without its sign. -/
def unsigned? (negative : Bool) (text : List Char) : Option Float :=
  match String.ofList (Text.lower text) with
  | "inf" | "infinity" => some (if negative then -1.0 / 0.0 else 1.0 / 0.0)
  | "nan" => some (0.0 / 0.0)
  | _ =>
    match pointDigits? text with
    | none => none
    | some (whole, fraction, []) =>
      some (signedFloat negative (digitsValue (whole ++ fraction)) (-fraction.length))
    | some (whole, fraction, rest) =>
      match exponent? rest with
      | some (e, []) =>
        some (signedFloat negative (digitsValue (whole ++ fraction)) (e - fraction.length))
      | _ => none

/-- A number with a sign or without. -/
def signed? : List Char → Option Float
  | '-' :: rest => unsigned? true rest
  | '+' :: rest => unsigned? false rest
  | text => unsigned? false text

/-- Whether underscores stand only between other characters, one at a time. -/
def groupsWell (text : List Char) : Bool :=
  text.contains '_' && text.head? != some '_' && text.getLast? != some '_' &&
    !Text.holds ['_', '_'] text

/-- A number with white space around it, or with underscores between its digits. -/
def parse? (text : List Char) : Option Float :=
  match signed? (Text.trimSpace text) with
  | some x => some x
  | none => if groupsWell text then signed? (text.filter (· ≠ '_')) else none

end ConsoleSweep.Decimal
