/-
  JSON texts of values. Everything outside printable ASCII is written by an escape,
  a character beyond the basic plane as two.

  `line` writes a value on one line; `indented` gives each item and field a line of
  its own.
-/
import ConsoleSweep.Json

namespace ConsoleSweep.Json

open ConsoleSweep.Text

/-- The escape of one 16-bit unit. -/
def unitEscape (n : Nat) : List Char :=
  '\\' :: 'u' :: hex 4 n

/-- A character inside a JSON string. -/
def escapedChar (c : Char) : List Char :=
  if c = '"' || c = '\\' then ['\\', c]
  else if c = '\n' then ['\\', 'n']
  else if c = '\r' then ['\\', 'r']
  else if c = '\t' then ['\\', 't']
  else if c = '\x0c' then ['\\', 'f']
  else if c = '\x08' then ['\\', 'b']
  else if ' ' ≤ c && c ≤ '~' then [c]
  else if c.toNat < 0x10000 then unitEscape c.toNat
  else
    unitEscape (0xD800 + (c.toNat - 0x10000) / 0x400) ++
      unitEscape (0xDC00 + (c.toNat - 0x10000) % 0x400)

/-- A JSON string. -/
def string (s : String) : List Char :=
  '"' :: s.toList.flatMap escapedChar ++ ['"']

/-- The words for the numbers that have no digits. -/
def words : Decimal.Words := ⟨"NaN", "Infinity"⟩

/-- A value that has no parts. -/
def scalar : Json → List Char
  | .null => "null".toList
  | .bool b => (if b then "true" else "false").toList
  | .int n => (Text.ofInt n).toList
  | .real x => (Decimal.textWith words x).toList
  | .str s => string s
  | .arr _ => "[]".toList
  | .obj _ => "\x7b\x7d".toList

mutual

/-- A value on one line. -/
def line : Json → List Char
  | .arr (v :: vs) => '[' :: line v ++ lineItems vs
  | .obj ((k, v) :: fs) => '\x7b' :: string k ++ ':' :: ' ' :: line v ++ lineFields fs
  | v => scalar v

/-- The items after the first, and the end of the array. -/
def lineItems : List Json → List Char
  | [] => [']']
  | v :: vs => ',' :: ' ' :: line v ++ lineItems vs

/-- The fields after the first, and the end of the object. -/
def lineFields : List (String × Json) → List Char
  | [] => ['\x7d']
  | (k, v) :: fs => ',' :: ' ' :: string k ++ ':' :: ' ' :: line v ++ lineFields fs

end

/-- A line break and the indent of the given depth. -/
def newline (depth : Nat) : List Char :=
  '\n' :: List.replicate (2 * depth) ' '

mutual

/-- A value over several lines; its own first line is at the given depth. -/
def indentedAt (depth : Nat) : Json → List Char
  | .arr (v :: vs) => '[' :: newline (depth + 1) ++ indentedAt (depth + 1) v ++ moreItems depth vs
  | .obj ((k, v) :: fs) =>
    '\x7b' :: newline (depth + 1) ++ string k ++ ':' :: ' ' :: indentedAt (depth + 1) v ++
      moreFields depth fs
  | v => scalar v

/-- The items after the first, and the end of the array. -/
def moreItems (depth : Nat) : List Json → List Char
  | [] => newline depth ++ [']']
  | v :: vs => ',' :: newline (depth + 1) ++ indentedAt (depth + 1) v ++ moreItems depth vs

/-- The fields after the first, and the end of the object. -/
def moreFields (depth : Nat) : List (String × Json) → List Char
  | [] => newline depth ++ ['\x7d']
  | (k, v) :: fs =>
    ',' :: newline (depth + 1) ++ string k ++ ':' :: ' ' :: indentedAt (depth + 1) v ++
      moreFields depth fs

end

/-- A value over several lines. -/
def indented (v : Json) : List Char :=
  indentedAt 0 v

/-- The number of digits that a whole number may have in a text. -/
def digitLimit : Nat := 4300

/-- How many arrays and objects may stand inside each other. The number is one of its kind: in a
running program the limit is that of the call stack, less what is in use where the text is read or
written. What is said of any text or value holds for any limit that is the same for both and leaves
room for what the program itself writes. -/
def depthLimit : Nat := 990

mutual

/-- Whether every whole number in the value is short enough to be written. -/
def isWritable : Json → Bool
  | .int n => (Nat.toDigits 10 n.natAbs).length ≤ digitLimit
  | .arr items => areWritable items
  | .obj fields => haveWritable fields
  | _ => true

/-- `isWritable` for each item. -/
def areWritable : List Json → Bool
  | [] => true
  | v :: vs => isWritable v && areWritable vs

/-- `isWritable` for each field. -/
def haveWritable : List (String × Json) → Bool
  | [] => true
  | (_, v) :: fs => isWritable v && haveWritable fs

end

mutual

/-- How many arrays and objects stand inside each other at most. -/
def depth : Json → Nat
  | .arr items => itemsDepth items + 1
  | .obj fields => fieldsDepth fields + 1
  | _ => 0

/-- The depth of the deepest item. -/
def itemsDepth : List Json → Nat
  | [] => 0
  | v :: vs => max (depth v) (itemsDepth vs)

/-- The depth of the deepest field. -/
def fieldsDepth : List (String × Json) → Nat
  | [] => 0
  | (_, v) :: fs => max (depth v) (fieldsDepth fs)

end

end ConsoleSweep.Json
