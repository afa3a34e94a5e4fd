/-
  Rows of comma-separated values.

  A field is put in quotes if it holds a comma, a quote or a line break character,
  and a quote inside is then written twice. A row ends with a carriage return and a
  line feed. A row of one empty field is written as two quotes, to tell it from a
  row without fields.

  `parse` reads such rows back.
-/
import ConsoleSweep.Text.Basic

namespace ConsoleSweep.Csv

/-- A character for whose sake a field is quoted. -/
def needsQuotes (c : Char) : Bool :=
  c == ',' || c == '"' || c == '\r' || c == '\n'

/-- The text between the quotes. -/
def doubled : List Char → List Char
  | [] => []
  | c :: cs => if c = '"' then '"' :: '"' :: doubled cs else c :: doubled cs

/-- A field. -/
def field (text : List Char) : List Char :=
  if text.any needsQuotes then '"' :: doubled text ++ ['"'] else text

/-- A row. -/
def row (fields : List (List Char)) : List Char :=
  (if fields = [[]] then ['"', '"'] else [','].intercalate (fields.map field)) ++ ['\r', '\n']

/-! ## Reading -/

/-- Where a reader stands: before a field, in a plain field, in a quoted field, behind a quote
inside a quoted field, or behind a carriage return. -/
inductive State where
  | start
  | plain
  | quoted
  | quote
  | afterReturn
  deriving DecidableEq, Repr

/-- What was read so far. -/
structure Reader where
  state : State
  /-- Whether the current row has a field or a part of one. -/
  begun : Bool
  /-- The characters of the current field, last one first. -/
  field : List Char
  /-- The fields of the current row, last one first. -/
  fields : List (List Char)
  /-- The rows, last one first. -/
  rows : List (List (List Char))
  deriving DecidableEq, Repr

/-- A reader at the start of a text. -/
def Reader.initial : Reader :=
  ⟨.start, false, [], [], []⟩

/-- Ends the current field. -/
def Reader.endField (r : Reader) : Reader :=
  { r with state := .start, begun := true, field := [], fields := r.field.reverse :: r.fields }

/-- Ends the current row. -/
def Reader.endRow (r : Reader) (next : State) : Reader :=
  let r' := if r.begun then r.endField else r
  { r' with state := next, begun := false, fields := [], rows := r'.fields.reverse :: r'.rows }

/-- Takes a character into the current field. -/
def Reader.take (r : Reader) (next : State) (c : Char) : Reader :=
  { r with state := next, begun := true, field := c :: r.field }

/-- A character outside of quotes. -/
def Reader.outside (r : Reader) (c : Char) : Reader :=
  if c = ',' then r.endField
  else if c = '\r' then r.endRow .afterReturn
  else if c = '\n' then r.endRow .start
  else r.take .plain c

/-- Reads one character. -/
def Reader.step (r : Reader) (c : Char) : Reader :=
  match r.state with
  | .start => if c = '"' then { r with state := .quoted, begun := true } else r.outside c
  | .plain => r.outside c
  | .quoted => if c = '"' then { r with state := .quote } else r.take .quoted c
  | .quote => if c = '"' then r.take .quoted c else r.outside c
  | .afterReturn =>
    if c = '\n' then { r with state := .start }
    else if c = '"' then { r with state := .quoted, begun := true }
    else r.outside c

/-- The rows of a text; a last row need not be ended. -/
def parse (text : List Char) : List (List (List Char)) :=
  let r := text.foldl Reader.step Reader.initial
  (if r.begun then r.endRow .start else r).rows.reverse

end ConsoleSweep.Csv
