/-
  Calls of the console: what one looks like and where a text has one.

  A call starts with `console`, which no word character and no `$` may precede,
  then a point, one of the method names and an opening parenthesis, with
  whitespace allowed around the point and before the parenthesis. Only this head
  is recognised here; whether the parentheses close is left to the removal.

  `heads` gives every way to read a head at a place, one for each name that fits,
  in the order of the names. `calls` lists the heads of a text.
-/
import ConsoleSweep.Text.Blank
import ConsoleSweep.Text.Span
import ConsoleSweep.Text.Word

namespace ConsoleSweep.Call

open ConsoleSweep.Text

/-- The word every call starts with. -/
def keyword : List Char := "console".toList

/-- Whether a new word may start after the character `prev`. -/
def startsWord : Option Char → Bool
  | none => true
  | some c => !(isWord c || c == '$')

/-- After the name: what follows whitespace and the opening parenthesis. -/
def openParen (text : List Char) : Option (List Char) :=
  match skipBlank text with
  | '(' :: rest => some rest
  | _ => none

/-- What follows `name` and the opening parenthesis. -/
def afterName (text : List Char) (name : String) : Option (List Char) :=
  (name.toList.isPrefixOf? text).bind openParen

/-- What follows the keyword and the point, with the whitespace around the point passed. -/
def afterPoint (text : List Char) : Option (List Char) :=
  match (keyword.isPrefixOf? text).map skipBlank with
  | some ('.' :: rest) => some (skipBlank rest)
  | _ => none

/-- The texts that may follow the head of a call at this place, in the order of the names. -/
def heads (names : List String) (prev : Option Char) (text : List Char) : List (List Char) :=
  if startsWord prev then
    match afterPoint text with
    | some rest => names.filterMap (afterName rest)
    | none => []
  else []

/-- The matcher of call heads. -/
def head (names : List String) : Matcher :=
  fun prev text => (heads names prev text).head?

/-- The heads of the calls of the named methods, leftmost first. -/
def calls (methods : List String) (text : List Char) : List Span :=
  if (normalizeNames methods).isEmpty then [] else findAll (head (normalizeNames methods)) text

/-- The number of calls, those in comments and string literals included. -/
def count (methods : List String) (text : List Char) : Nat :=
  (calls methods text).length

/-! ## The rule as a regular expression -/

/-- The characters that a regular expression reads as more than themselves. -/
def special : List Char :=
  "()[]\x7b\x7d?*+-|^$\\.&~# \t\n\r\x0b\x0c".toList

/-- The name as a regular expression that matches just it. -/
def escape (name : String) : String :=
  String.ofList (name.toList.flatMap fun c => if special.contains c then ['\\', c] else [c])

/-- The names as alternatives of a regular expression. -/
def alternation (methods : List String) : String :=
  "|".intercalate ((normalizeNames methods).map escape)

/-- The head of a call as a regular expression. -/
def pattern (methods : List String) : String :=
  "(?<![\\w$])console\\s*\\.\\s*(?:" ++ alternation methods ++ ")\\s*\\("

end ConsoleSweep.Call
