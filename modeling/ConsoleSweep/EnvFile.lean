/-
  Files of environment variables.

  A statement is a name and, behind an equals sign, its value: in single or double
  quotes, which may run over several lines, or plain up to the end of the line.
  What follows a number sign is a comment. A line that is no statement is skipped
  and reported.

  In a value, a name between a dollar sign with an opening brace and a closing
  brace stands for the value of that variable; behind `:-` it may have a default.

  The program does not read these files itself but has the package dotenv read them.
  The format is that package's documented one; where the files are looked for and what
  is done with the variables is in `Config`.
-/
import ConsoleSweep.Text.Basic
import ConsoleSweep.Text.Blank
import ConsoleSweep.Text.Span

namespace ConsoleSweep.EnvFile

open ConsoleSweep.Text

/-- What was read from a part of the file. -/
inductive Statement where
  /-- A blank part or a comment. -/
  | nothing
  /-- A name, with a value or without. -/
  | binding (name : String) (value : Option String)
  /-- A line that cannot be read, with the number of the line where the part begins. -/
  | broken (line : Nat)
  deriving DecidableEq, Repr

/-- A reader answers with the rest of the text, or with the text where it could not go on. -/
abbrev Reader (α : Type) := List Char → Except (List Char) (α × List Char)

/-- Whitespace inside a line. -/
def isGap (c : Char) : Bool :=
  isBlank c && c != '\r' && c != '\n'

/-- The text behind a gap. -/
def skipGap (text : List Char) : List Char :=
  text.dropWhile isGap

/-- Not the end of a line. -/
def inLine (c : Char) : Bool :=
  c != '\r' && c != '\n'

/-- The text behind the word `export` and a gap, if it starts with them. -/
def skipExport (text : List Char) : List Char :=
  match "export".toList.isPrefixOf? text with
  | some (c :: rest) => if isGap c then skipGap rest else text
  | _ => text

/-- A name; a comment has none. -/
def readName : Reader (Option String) := fun text =>
  match text with
  | '#' :: _ => .ok (none, text)
  | '\'' :: rest =>
    match rest.takeWhile (· ≠ '\''), rest.dropWhile (· ≠ '\'') with
    | c :: cs, '\'' :: rest => .ok (some (String.ofList (c :: cs)), rest)
    | _, _ => .error text
  | _ =>
    let isName (c : Char) : Bool := c != '=' && c != '#' && !isBlank c
    match text.takeWhile isName with
    | [] => .error text
    | name => .ok (some (String.ofList name), text.dropWhile isName)

/-- The text up to a closing quote, and the text behind it. What follows a backslash is never the
closing quote. -/
def upToQuote (quote : Char) : List Char → Option (List Char × List Char)
  | [] => none
  | '\\' :: c :: rest =>
    (upToQuote quote rest).map fun (inside, rest) => ('\\' :: c :: inside, rest)
  | c :: rest =>
    if c = quote then some ([], rest)
    else (upToQuote quote rest).map fun (inside, rest) => (c :: inside, rest)

/-- The character that an escape stands for, between the given quotes. -/
def escaped? (quote c : Char) : Option Char :=
  if c = '\\' || c = '\'' then some c
  else if quote = '\'' then none
  else
    match c with
    | '"' => some '"'
    | 'a' => some '\x07'
    | 'b' => some '\x08'
    | 'f' => some '\x0c'
    | 'n' => some '\n'
    | 'r' => some '\r'
    | 't' => some '\t'
    | 'v' => some '\x0b'
    | _ => none

/-- The text with its escapes read. -/
def unescape (quote : Char) : List Char → List Char
  | '\\' :: c :: rest =>
    match escaped? quote c with
    | some e => e :: unescape quote rest
    | none => '\\' :: unescape quote (c :: rest)
  | c :: rest => c :: unescape quote rest
  | [] => []

/-- A plain value without a comment behind whitespace. -/
def cutComment : Bool → List Char → List Char
  | _, [] => []
  | afterBlank, c :: rest =>
    if afterBlank && c = '#' then [] else c :: cutComment (isBlank c) rest

/-- A value, with the gap before it. -/
def readValue : Reader String := fun text =>
  match skipGap text with
  | [] => .ok ("", [])
  | c :: rest =>
    if c = '\'' || c = '"' then
      match upToQuote c rest with
      | some (inside, rest) => .ok (String.ofList (unescape c inside), rest)
      | none => .error (c :: rest)
    else
      .ok (String.ofList (trim (cutComment false (text.takeWhile inLine))), text.dropWhile inLine)

/-- The text behind a comment and the end of the line. -/
def readEnd (text : List Char) : Except (List Char) (List Char) :=
  let rest := match skipGap text with
    | '#' :: rest => rest.dropWhile inLine
    | _ => text
  match skipGap rest with
  | [] => .ok []
  | '\r' :: '\n' :: rest => .ok rest
  | '\n' :: rest => .ok rest
  | '\r' :: rest => .ok rest
  | _ => .error rest

/-- A name and what belongs to it. -/
def readBinding (text : List Char) : Except (List Char) (Statement × List Char) := do
  let (name, rest) ← readName (skipExport text)
  let (value, rest) ← match skipGap rest with
    | '=' :: rest => (readValue rest).map fun (v, rest) => (some v, rest)
    | rest => .ok (none, rest)
  let rest ← readEnd rest
  return (match name with
    | some name => .binding name value
    | none => .nothing, rest)

/-- The text behind the end of the current line. -/
def skipLine (text : List Char) : List Char :=
  (text.dropWhile inLine).drop 1

/-- The statements of a text that starts at the given line. The first argument bounds their
number; the length of the text is enough. -/
def statementsFrom : Nat → Nat → List Char → List Statement
  | 0, _, _ => []
  | _, _, [] => []
  | fuel + 1, line, text =>
    match skipBlank text with
    | [] => [.nothing]
    | start =>
      let (statement, rest) := match readBinding start with
        | .ok (s, rest) => (s, rest)
        | .error rest => (.broken line, skipLine rest)
      let read := text.take (text.length - rest.length)
      statement :: statementsFrom fuel (line + read.count '\n') rest

/-- The statements of a text. A byte order mark at its start is no part of the first. -/
def statements (text : List Char) : List Statement :=
  match text with
  | '\ufeff' :: rest => statementsFrom rest.length 1 rest
  | text => statementsFrom text.length 1 text

/-- The names and values that a list of statements has. -/
def bindings (ss : List Statement) : List (String × Option String) :=
  ss.filterMap fun
    | .binding name value => some (name, value)
    | _ => none

/-! ## Variables in values -/

/-- What follows a variable. -/
def variable_ : Matcher := fun _ text =>
  match text with
  | '$' :: '\x7b' :: rest =>
    match rest.dropWhile fun c => c != '\x7d' && c != ':' with
    | '\x7d' :: rest => some rest
    | ':' :: '-' :: rest =>
      match rest.dropWhile (· ≠ '\x7d') with
      | '\x7d' :: rest => some rest
      | _ => none
    | _ => none
  | _ => none

/-- What a variable stands for; `look` knows the variables, of which some have no value. -/
def resolve (look : String → Option (Option String)) (reference : List Char) : List Char :=
  let inner := (reference.drop 2).dropLast
  let name := inner.takeWhile (· ≠ ':')
  let default := inner.drop (name.length + 2)
  match look (String.ofList name) with
  | some (some value) => value.toList
  | some none => []
  | none => default

/-- A value with its variables replaced. -/
def interpolate (look : String → Option (Option String)) (value : List Char) : List Char :=
  splice (resolve look) (findAll variable_ value) value

/-- Sets a name; a known one keeps its place. -/
def setName (name : String) (value : Option String) :
    List (String × Option String) → List (String × Option String)
  | [] => [(name, value)]
  | (k, v) :: rest => if k = name then (k, value) :: rest else (k, v) :: setName name value rest

/-- The variables of a file, with the values replaced by what they stand for. A variable is looked
up in the environment first and then among the names read before. -/
def assignments (env : List (String × String)) (bs : List (String × Option String)) :
    List (String × Option String) :=
  bs.foldl (fun done (name, value) =>
    let look (n : String) : Option (Option String) :=
      match env.lookup n with
      | some v => some (some v)
      | none => done.lookup n
    setName name (value.map fun v => String.ofList (interpolate look v.toList)) done) []

end ConsoleSweep.EnvFile
