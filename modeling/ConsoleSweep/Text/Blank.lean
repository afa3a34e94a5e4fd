/-
  Blanks: the whitespace characters, and the two of them that indent a line.

  `trim` takes the whitespace off both ends of a text; it is how method names,
  folder names and typed answers are read.
-/
namespace ConsoleSweep.Text

/-- The whitespace characters, as inclusive ranges of code points. -/
def blankRanges : List (Nat × Nat) :=
  [(0x9, 0xD), (0x1C, 0x20), (0x85, 0x85), (0xA0, 0xA0), (0x1680, 0x1680), (0x2000, 0x200A),
   (0x2028, 0x2029), (0x202F, 0x202F), (0x205F, 0x205F), (0x3000, 0x3000)]

/-- A whitespace character, line breaks included. -/
def isBlank (c : Char) : Bool :=
  blankRanges.any fun r => r.1 ≤ c.toNat && c.toNat ≤ r.2

/-- A space or a tab. -/
def isIndent (c : Char) : Bool :=
  c == ' ' || c == '\t'

/-- The text from its first character that is not a space or a tab. -/
def skipIndent (text : List Char) : List Char :=
  text.dropWhile isIndent

/-- The text from its first character that is not whitespace. -/
def skipBlank (text : List Char) : List Char :=
  text.dropWhile isBlank

/-- The text up to its last character that is not whitespace. -/
def trimRight : List Char → List Char
  | [] => []
  | c :: cs =>
    match trimRight cs with
    | [] => if isBlank c then [] else [c]
    | kept => c :: kept

/-- The text without the whitespace at its ends. -/
def trim (text : List Char) : List Char :=
  trimRight (skipBlank text)

/-- Whitespace by its Unicode property; the four information separators do not count. -/
def isWhiteSpace (c : Char) : Bool :=
  isBlank c && !(0x1C ≤ c.toNat && c.toNat ≤ 0x1F)

/-- The text without the white space, by its Unicode property, at its ends. -/
def trimSpace (text : List Char) : List Char :=
  ((text.dropWhile isWhiteSpace).reverse.dropWhile isWhiteSpace).reverse

/-- `trim` on strings. -/
def trimmed (s : String) : String :=
  String.ofList (trim s.toList)

/-- Names as they are used: trimmed, without blank ones, each at its first place only. -/
def normalizeNames (names : List String) : List String :=
  ((names.map trimmed).filter (· ≠ "")).eraseDups

end ConsoleSweep.Text
