/-
  Reading JSON texts.

  Each reader is given the text from its place on and answers with a value and the
  text behind it. A fault says what was missing and how much of the text was left
  there, so that the place can be told by line and column. Whitespace is space, tab
  and the two line break characters. The words `NaN` and `Infinity` count as
  numbers. A key that comes twice keeps its first place and its last value. Arrays
  and objects may stand inside each other up to `depthLimit`.

  A string is one of characters, so an escape for half of a pair of units, on its
  own, is read as the replacement character. Two keys that differ in such halves only
  are read as one key. What is said of any text is said of it as it is read here.
-/
import ConsoleSweep.Json.Printer

namespace ConsoleSweep.Json

/-- What can be wrong with a JSON text. -/
inductive Problem where
  | value
  | propertyName
  | colon
  | comma
  | unterminated
  | control
  | escape
  | unicodeEscape
  | extra
  | byteOrderMark
  /-- A whole number with more digits than are read. -/
  | tooLong (digits : Nat)
  /-- More arrays and objects inside each other than are read. -/
  | tooDeep
  deriving DecidableEq, Repr

/-- The wording of a problem. -/
def Problem.message : Problem → String
  | .value => "Expecting value"
  | .propertyName => "Expecting property name enclosed in double quotes"
  | .colon => "Expecting ':' delimiter"
  | .comma => "Expecting ',' delimiter"
  | .unterminated => "Unterminated string starting at"
  | .control => "Invalid control character at"
  | .escape => "Invalid \\escape"
  | .unicodeEscape => "Invalid \\uXXXX escape"
  | .extra => "Extra data"
  | .byteOrderMark => "Unexpected UTF-8 BOM (decode using utf-8-sig)"
  | .tooLong digits =>
    "Exceeds the limit (4300 digits) for integer string conversion: value has " ++
      Text.ofNat digits ++ " digits; use sys.set_int_max_str_digits() to increase the limit"
  | .tooDeep => "maximum recursion depth exceeded"

/-- A problem and how much of the text was left where it was found. -/
structure Stuck where
  problem : Problem
  left : Nat
  deriving DecidableEq, Repr

/-- Reports a problem at the start of the given text. -/
def stuck {α : Type} (problem : Problem) (text : List Char) : Except Stuck α :=
  .error ⟨problem, text.length⟩

/-- Whitespace between the parts of a JSON text. -/
def isSpace (c : Char) : Bool :=
  c == ' ' || c == '\t' || c == '\n' || c == '\r'

/-- The text without the whitespace at its start. -/
def skipSpace (text : List Char) : List Char :=
  text.dropWhile isSpace

/-! ## Strings -/

/-- The value of a hexadecimal digit. -/
def hexValue? (c : Char) : Option Nat :=
  if '0' ≤ c && c ≤ '9' then some (c.toNat - '0'.toNat)
  else if 'a' ≤ c && c ≤ 'f' then some (c.toNat - 'a'.toNat + 10)
  else if 'A' ≤ c && c ≤ 'F' then some (c.toNat - 'A'.toNat + 10)
  else none

/-- The value of four hexadecimal digits. -/
def unitValue? (a b c d : Char) : Option Nat :=
  match hexValue? a, hexValue? b, hexValue? c, hexValue? d with
  | some a, some b, some c, some d => some (((a * 16 + b) * 16 + c) * 16 + d)
  | _, _, _, _ => none

/-- The character of a one-letter escape. -/
def shortEscape? : Char → Option Char
  | '"' => some '"'
  | '\\' => some '\\'
  | '/' => some '/'
  | 'b' => some '\x08'
  | 'f' => some '\x0c'
  | 'n' => some '\n'
  | 'r' => some '\r'
  | 't' => some '\t'
  | _ => none

/-- The first half of an escaped pair. -/
def isHighUnit (n : Nat) : Bool :=
  0xD800 ≤ n && n ≤ 0xDBFF

/-- The second half of an escaped pair. -/
def isLowUnit (n : Nat) : Bool :=
  0xDC00 ≤ n && n ≤ 0xDFFF

/-- The character of a code; half of a pair on its own becomes the replacement character. -/
def codeChar (n : Nat) : Char :=
  if isHighUnit n || isLowUnit n then '\uFFFD' else Char.ofNat n

/-- The character of an escaped pair. -/
def pairChar (high low : Nat) : Char :=
  Char.ofNat (0x10000 + (high - 0xD800) * 0x400 + (low - 0xDC00))

/-- The characters of a row of codes; the two halves of a pair are one character. -/
def joinCodes : List Nat → List Char
  | [] => []
  | [n] => [codeChar n]
  | n :: m :: rest =>
    if isHighUnit n && isLowUnit m then pairChar n m :: joinCodes rest
    else codeChar n :: joinCodes (m :: rest)

/-- Puts a code before those that were read. -/
def consCode (n : Nat) : Except Stuck (List Nat × List Char) → Except Stuck (List Nat × List Char)
  | .ok (ns, rest) => .ok (n :: ns, rest)
  | .error e => .error e

/-- The codes of a string whose opening quote was read with `opened` characters left. -/
def readCodes (opened : Nat) : List Char → Except Stuck (List Nat × List Char)
  | [] => .error ⟨.unterminated, opened⟩
  | ['\\'] => .error ⟨.unterminated, opened⟩
  | '\\' :: 'u' :: a :: b :: c :: d :: rest =>
    match unitValue? a b c d with
    | some n =>
      if rest.isEmpty then stuck .unicodeEscape ['u', a, b, c, d]
      else consCode n (readCodes opened rest)
    | none => stuck .unicodeEscape ('u' :: a :: b :: c :: d :: rest)
  | '\\' :: c :: rest =>
    if c = 'u' then stuck .unicodeEscape (c :: rest)
    else
      match shortEscape? c with
      | some c' => consCode c'.toNat (readCodes opened rest)
      | none => stuck .escape ('\\' :: c :: rest)
  | c :: rest =>
    if c = '"' then .ok ([], rest)
    else if c.toNat ≤ 0x1F then stuck .control (c :: rest)
    else consCode c.toNat (readCodes opened rest)

/-- A string whose opening quote has just been read. -/
def readString (rest : List Char) : Except Stuck (String × List Char) :=
  match readCodes (rest.length + 1) rest with
  | .ok (ns, rest) => .ok (String.ofList (joinCodes ns), rest)
  | .error e => .error e

/-! ## Numbers -/

/-- An ASCII digit. -/
def isDigit (c : Char) : Bool :=
  '0' ≤ c && c ≤ '9'

/-- The number that a row of digits stands for. -/
def digitsValue (ds : List Char) : Nat :=
  ds.foldl (fun n c => n * 10 + (c.toNat - '0'.toNat)) 0

/-- The digits of a number before its point. -/
def wholeDigits (text : List Char) : List Char :=
  match text with
  | '0' :: _ => ['0']
  | _ => text.takeWhile isDigit

/-- The digits after a point, if there are any. -/
def fractionDigits : List Char → List Char
  | '.' :: rest => rest.takeWhile isDigit
  | _ => []

/-- The exponent and what follows it, if there is one. -/
def exponent? (text : List Char) : Option (Int × List Char) :=
  let signed (negative : Bool) (rest : List Char) : Option (Int × List Char) :=
    match rest.takeWhile isDigit with
    | [] => none
    | ds => some (if negative then -(digitsValue ds) else digitsValue ds, rest.drop ds.length)
  match text with
  | e :: '-' :: rest => if e = 'e' || e = 'E' then signed true rest else none
  | e :: '+' :: rest => if e = 'e' || e = 'E' then signed false rest else none
  | e :: rest => if e = 'e' || e = 'E' then signed false rest else none
  | [] => none

/-- A number without its sign, and what follows it. -/
def readUnsigned (negative : Bool) (text : List Char) : Option (Except Problem Json × List Char) :=
  match wholeDigits text with
  | [] => none
  | whole =>
    let rest := text.drop whole.length
    let fraction := fractionDigits rest
    let rest := if fraction.isEmpty then rest else rest.drop (fraction.length + 1)
    match exponent? rest with
    | some (e, rest) =>
      let x := Decimal.signedFloat negative (digitsValue (whole ++ fraction)) (e - fraction.length)
      some (.ok (.real x), rest)
    | none =>
      if fraction.isEmpty then
        let n : Int := digitsValue whole
        some (if digitLimit < whole.length then .error (.tooLong whole.length)
          else .ok (.int (if negative then -n else n)), rest)
      else
        let x := Decimal.signedFloat negative (digitsValue (whole ++ fraction)) (-fraction.length)
        some (.ok (.real x), rest)

/-- A number. -/
def readNumber (text : List Char) : Except Stuck (Json × List Char) :=
  let number := match text with
    | '-' :: rest => readUnsigned true rest
    | _ => readUnsigned false text
  match number with
  | none => stuck .value text
  | some (.ok v, rest) => .ok (v, rest)
  | some (.error p, _) => stuck p text

/-! ## Values -/

/-- The words that are values. -/
def wordValues : List (String × Json) :=
  [("null", .null), ("true", .bool true), ("false", .bool false), ("NaN", .real (0.0 / 0.0)),
   ("Infinity", .real (1.0 / 0.0)), ("-Infinity", .real (-1.0 / 0.0))]

/-- A word that is a value. -/
def readWord? (text : List Char) : Option (Json × List Char) :=
  wordValues.findSome? fun (w, v) => (w.toList.isPrefixOf? text).map fun rest => (v, rest)

mutual

/-- A value. The first argument bounds the length of the reading; twice the length of the text is
enough. The second says how many arrays and objects may stand inside each other. -/
def readValue : Nat → Nat → List Char → Except Stuck (Json × List Char)
  | 0, _, text => stuck .value text
  | fuel + 1, depth, text =>
    match text with
    | '"' :: rest => (readString rest).map fun (s, rest) => (.str s, rest)
    | '[' :: rest =>
      match depth, skipSpace rest with
      | 0, _ => stuck .tooDeep text
      | _ + 1, ']' :: rest => .ok (.arr [], rest)
      | depth + 1, rest => (readItems fuel depth rest).map fun (vs, rest) => (.arr vs, rest)
    | '\x7b' :: rest =>
      match depth, skipSpace rest with
      | 0, _ => stuck .tooDeep text
      | _ + 1, '\x7d' :: rest => .ok (.obj [], rest)
      | depth + 1, rest =>
        (readFields fuel depth rest).map fun (fs, rest) => (.obj (overlay [] fs), rest)
    | _ =>
      match readWord? text with
      | some (v, rest) => .ok (v, rest)
      | none => readNumber text

/-- One or more items and the end of the array. -/
def readItems : Nat → Nat → List Char → Except Stuck (List Json × List Char)
  | 0, _, text => stuck .value text
  | fuel + 1, depth, text => do
    let (v, rest) ← readValue fuel depth text
    match skipSpace rest with
    | ']' :: rest => .ok ([v], rest)
    | ',' :: rest => (readItems fuel depth (skipSpace rest)).map fun (vs, rest) => (v :: vs, rest)
    | rest => stuck .comma rest

/-- One or more fields and the end of the object. -/
def readFields : Nat → Nat → List Char → Except Stuck (List (String × Json) × List Char)
  | 0, _, text => stuck .propertyName text
  | fuel + 1, depth, text =>
    match text with
    | '"' :: rest => do
      let (k, rest) ← readString rest
      match skipSpace rest with
      | ':' :: rest =>
        let (v, rest) ← readValue fuel depth (skipSpace rest)
        match skipSpace rest with
        | '\x7d' :: rest => .ok ([(k, v)], rest)
        | ',' :: rest =>
          (readFields fuel depth (skipSpace rest)).map fun (fs, rest) => ((k, v) :: fs, rest)
        | rest => stuck .comma rest
      | rest => stuck .colon rest
    | _ => stuck .propertyName text

end

/-- What is wrong with a JSON text, and where. -/
structure ParseError where
  problem : Problem
  line : Nat
  column : Nat
  offset : Nat
  deriving DecidableEq, Repr

/-- The place of a problem in the whole text. -/
def Stuck.locate (s : Stuck) (text : List Char) : ParseError :=
  let before := text.take (text.length - s.left)
  { problem := s.problem
    line := before.count '\n' + 1
    column := (before.reverse.takeWhile (· ≠ '\n')).length + 1
    offset := before.length }

/-- The wording of a parse error; for a number that is too long it names no place. -/
def ParseError.message (e : ParseError) : String :=
  match e.problem with
  | .tooLong _ => e.problem.message
  | _ =>
    e.problem.message ++ ": line " ++ Text.ofNat e.line ++ " column " ++ Text.ofNat e.column ++
      " (char " ++ Text.ofNat e.offset ++ ")"

/-- Whether the text is not JSON at all, as opposed to JSON that is not read for its size. -/
def ParseError.isMalformed (e : ParseError) : Bool :=
  match e.problem with
  | .tooLong _ | .tooDeep => false
  | _ => true

/-- The value and the end of the text. -/
def readDocument (text : List Char) : Except Stuck Json :=
  if text.head? = some '\uFEFF' then stuck .byteOrderMark text
  else do
    let (v, rest) ← readValue (2 * text.length + 2) depthLimit (skipSpace text)
    match skipSpace rest with
    | [] => .ok v
    | rest => stuck .extra rest

/-- The value of a JSON text. -/
def parse (text : List Char) : Except ParseError Json :=
  (readDocument text).mapError (·.locate text)

end ConsoleSweep.Json
