/-
  Comments of a source text.

  The text is read from left to right. `//` opens a comment up to the line break,
  `/*` one through the next `*/` or to the end of the text. A quoted string is
  stepped over, so that a comment mark inside it opens nothing; a quote that is
  not closed is an ordinary character. Strings in `'` and `"` end on their line,
  strings in backticks may run over several; a backslash takes the next character
  with it.
-/
import ConsoleSweep.Text.Span

namespace ConsoleSweep.Comment

open ConsoleSweep.Text

/-- A line break character. -/
def isBreak (c : Char) : Bool :=
  c == '\r' || c == '\n'

/-- What follows the first `*/`, or the end of the text. -/
def afterBlock : List Char → List Char
  | '*' :: '/' :: rest => rest
  | _ :: rest => afterBlock rest
  | [] => []

/-- What follows the closing quote, if there is one before `stop` holds of a character. -/
def afterQuote (quote : Char) (stop : Char → Bool) : List Char → Option (List Char)
  | '\\' :: _ :: rest => afterQuote quote stop rest
  | c :: rest =>
    if c = quote then some rest
    else if stop c || c == '\\' then none
    else afterQuote quote stop rest
  | [] => none

/-- The matcher of comments and quoted strings. -/
def token : Matcher :=
  fun _ text =>
    match text with
    | '/' :: '/' :: rest => some (rest.dropWhile (!isBreak ·))
    | '/' :: '*' :: rest => some (afterBlock rest)
    | '\'' :: rest => afterQuote '\'' isBreak rest
    | '"' :: rest => afterQuote '"' isBreak rest
    | '`' :: rest => afterQuote '`' (fun _ => false) rest
    | _ => none

/-- The comments of a text, leftmost first. -/
def spans (text : List Char) : List Span :=
  (findAll token text).filter fun s => text[s.start]? == some '/'

/-- A block comment that was closed, as opposed to one that the end of the text ended. -/
def isClosedBlock (comment : List Char) : Bool :=
  "/*".toList.isPrefixOf comment && 4 ≤ comment.length && "*/".toList.isSuffixOf comment

end ConsoleSweep.Comment
