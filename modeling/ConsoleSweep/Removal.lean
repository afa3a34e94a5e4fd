/-
  Removal of console calls from a source text.

  Five passes delete calls, each on what the one before has left:

  * `single`: a line that is one call with no `;` among its arguments;
  * `nested`: a statement, maybe over several lines, that is one call with at most
    one level of parentheses among its arguments;
  * `inline`: a call anywhere in a line, unless it stands in a comment or its text
    has a brace or the word `function`; repeated, as a deletion can bring the parts
    of another call together;
  * `commented`: a line that is a comment starting with a call;
  * `block`: a closed block comment with a call in it.

  `removeCalls` repeats the five until a round changes nothing or the limit is
  reached. If anything was deleted, `normalizeBlankLines` then tidies what is left.
-/
import ConsoleSweep.Call
import ConsoleSweep.Comment
import ConsoleSweep.Text.Basic

namespace ConsoleSweep.Removal

open ConsoleSweep.Text ConsoleSweep.Call

/-! ## Places and ends -/

/-- Whether a line starts after the character `prev`. -/
def startsLine (prev : Option Char) : Bool :=
  prev.isNone || prev == some '\n'

/-- The character before the text that is left once its indent is skipped. -/
def beforeIndented (prev : Option Char) : List Char → Option Char
  | c :: _ => if isIndent c then some c else prev
  | [] => prev

/-- The heads of a call that may be indented. -/
def indentedHeads (names : List String) (prev : Option Char) (text : List Char) :
    List (List Char) :=
  heads names (beforeIndented prev text) (skipIndent text)

/-- What follows a line break; the end of the text counts as one. -/
def afterBreak : List Char → Option (List Char)
  | [] => some []
  | '\n' :: rest => some rest
  | '\r' :: '\n' :: rest => some rest
  | _ => none

/-- The text without a semicolon at its start. -/
def skipSemicolon : List Char → List Char
  | ';' :: rest => rest
  | text => text

/-- The end of a statement: blanks, a semicolon or none, blanks, and the line break. -/
def statementEnd (text : List Char) : Option (List Char) :=
  afterBreak (skipIndent (skipSemicolon (skipIndent text)))

/-! ## Ways for a call to end -/

/-- What follows the last `)` that stands before every `;` and line break. -/
def afterLastClose : List Char → Option (List Char)
  | [] => none
  | c :: cs =>
    if c = ';' || c = '\n' then none
    else
      match afterLastClose cs with
      | some rest => some rest
      | none => if c = ')' then some cs else none

/-- What follows the first `)` that ends a statement, where each `)` before it closes a group
opened since the `)` before; `opened` says whether one was opened. -/
def afterGroups : Bool → List Char → Option (List Char)
  | _, [] => none
  | opened, c :: cs =>
    if c = ')' then
      match statementEnd cs with
      | some rest => some rest
      | none => if opened then afterGroups false cs else none
    else afterGroups (opened || c == '(') cs

/-- What follows the first `)`, with blanks and one semicolon passed; no `;` and no brace may
stand before it. -/
def afterFirstClose : List Char → Option (List Char)
  | [] => none
  | c :: cs =>
    if c = ')' then some (skipSemicolon (skipIndent cs))
    else if c = ';' || c = '\x7b' || c = '\x7d' then none
    else afterFirstClose cs

/-- What follows the line break that ends the current line. -/
def afterLine : List Char → List Char
  | [] => []
  | c :: cs => if c = '\n' then cs else afterLine cs

/-! ## The patterns of the passes -/

/-- A line that is one call. -/
def singleLine (names : List String) : Matcher :=
  fun prev text =>
    if startsLine prev then
      (indentedHeads names prev text).findSome? fun rest => (afterLastClose rest).bind statementEnd
    else none

/-- A statement that is one call with at most one level of parentheses inside. -/
def nestedStatement (names : List String) : Matcher :=
  fun prev text =>
    if startsLine prev then (indentedHeads names prev text).findSome? (afterGroups false)
    else none

/-- A call anywhere, with the blanks around it and a semicolon. -/
def inlineCall (names : List String) : Matcher :=
  fun prev text => (indentedHeads names prev text).findSome? afterFirstClose

/-- A comment line that starts with a call. -/
def commentedLine (names : List String) : Matcher :=
  fun prev text =>
    if startsLine prev then
      match skipIndent text with
      | '/' :: '/' :: rest => (indentedHeads names (some '/') rest).head?.map afterLine
      | _ => none
    else none

/-! ## The passes -/

/-- Repeats a step until it changes nothing, at most `limit` times. -/
def settle (step : List Char → List Char) : Nat → List Char → List Char
  | 0, text => text
  | limit + 1, text => if step text = text then text else settle step limit (step text)

/-- How often the inline pass looks for calls that its deletions have formed. -/
def inlineLimit : Nat := 5

/-- How often the five passes are repeated. -/
def roundLimit : Nat := 10

/-- Deletes lines that are one call. -/
def removeSingle (names : List String) (text : List Char) : List Char :=
  cut (findAll (singleLine names) text) text

/-- Deletes statements that are one call with at most one level of parentheses inside. -/
def removeNested (names : List String) (text : List Char) : List Char :=
  cut (findAll (nestedStatement names) text) text

/-- Whether the inline pass deletes a match with this text. -/
def isErasable (call : List Char) : Bool :=
  !(call.contains '\x7b' || call.contains '\x7d' || holds "function".toList call)

/-- The matches that the inline pass deletes. -/
def erasable (names : List String) (text : List Char) : List Span :=
  let comments := (Comment.spans text).toArray
  (findAll (inlineCall names) text).filter fun s =>
    isErasable (s.slice text) && !insideAny comments s.start

/-- Deletes calls once, from left to right. -/
def removeInlineOnce (names : List String) (text : List Char) : List Char :=
  cut (erasable names text) text

/-- Deletes calls anywhere in a line. -/
def removeInline (names : List String) (text : List Char) : List Char :=
  settle (removeInlineOnce names) inlineLimit text

/-- Deletes comment lines that start with a call. -/
def removeCommented (names : List String) (text : List Char) : List Char :=
  cut (findAll (commentedLine names) text) text

/-- The block comments that the last pass deletes. -/
def callBlocks (names : List String) (text : List Char) : List Span :=
  (Comment.spans text).filter fun s =>
    Comment.isClosedBlock (s.slice text) && !(findAll (head names) (s.slice text)).isEmpty

/-- Deletes closed block comments with a call in them. -/
def removeBlocks (names : List String) (text : List Char) : List Char :=
  cut (callBlocks names text) text

/-! ## Blank lines -/

/-- From the first to the last line break of a stretch of whitespace with four or more. -/
def blankRun : Matcher :=
  fun _ text =>
    if text.head? = some '\n' && 4 ≤ (text.takeWhile isBlank).count '\n' then
      let tail := ((text.takeWhile isBlank).reverse.takeWhile (· ≠ '\n')).reverse
      some (tail ++ skipBlank text)
    else none

/-- Two blank lines, in the manner of the line breaks they stand for. -/
def collapsed (run : List Char) : List Char :=
  if holds "\r\n".toList run then "\n\r\n\r\n".toList else "\n\n\n".toList

/-- The indent of a line that has nothing else. -/
def loneIndent : Matcher :=
  fun prev text =>
    if startsLine prev && (text.head?.map isIndent).getD false then
      match skipIndent text with
      | [] => some []
      | '\n' :: rest => some ('\n' :: rest)
      | ['\r'] => some ['\r']
      | '\r' :: '\n' :: rest => some ('\r' :: '\n' :: rest)
      | _ => none
    else none

/-- Leaves at most two blank lines in a row, and no spaces or tabs on a line of their own. -/
def normalizeBlankLines (text : List Char) : List Char :=
  let short := splice collapsed (findAll blankRun text) text
  cut (findAll loneIndent short) short

/-! ## All passes together -/

/-- One run of the five passes. -/
def round (names : List String) (text : List Char) : List Char :=
  removeBlocks names
    (removeCommented names (removeInline names (removeNested names (removeSingle names text))))

/-- The text without the calls of the named methods; a text with nothing to remove stays as it
is. -/
def removeCalls (methods : List String) (text : List Char) : List Char :=
  let names := normalizeNames methods
  if names.isEmpty then text
  else
    let swept := settle (round names) roundLimit text
    if swept = text then text else normalizeBlankLines swept

/-- The steps of a removal, for use on their own. -/
inductive Pass where
  | single
  | nested
  | inline
  | commented
  | block
  | blank
  deriving DecidableEq, Repr

/-- The pass with this name. -/
def Pass.ofName? : String → Option Pass
  | "single" => some .single
  | "nested" => some .nested
  | "inline" => some .inline
  | "commented" => some .commented
  | "block" => some .block
  | "blank" => some .blank
  | _ => none

/-- Runs one pass. Without method names it looks for the empty name, as in `console.(`. -/
def Pass.run (pass : Pass) (methods : List String) (text : List Char) : List Char :=
  let names := match normalizeNames methods with
    | [] => [""]
    | names => names
  match pass with
  | .single => removeSingle names text
  | .nested => removeNested names text
  | .inline => removeInline names text
  | .commented => removeCommented names text
  | .block => removeBlocks names text
  | .blank => normalizeBlankLines text

end ConsoleSweep.Removal
