/-
  The texts that explain a grammar, set for a screen of a given width.

  The usage has one part for each option and for the operand; parts that do not fit
  into one line go below the first of them. The help has the usage, what the program
  is for, and a table of the operands and of the options. The notes of a table stand
  in one column; a label that is too long for its place has its note below it.
-/
import ConsoleSweep.Arguments
import ConsoleSweep.Text.Wrap

namespace ConsoleSweep.Arguments

/-- Blanks. -/
def blanks (n : Nat) : String :=
  String.ofList (List.replicate n ' ')

/-- Lines of text, each with its end. -/
def joinLines (lines : List String) : String :=
  String.join (lines.map (· ++ "\n"))

/-! ## The parts of a grammar -/

/-- The word for the value of an option: its name in capitals. -/
def Opt.valueWord (o : Opt) : String :=
  String.ofList ((o.key.toList.drop 2).map fun c => if c = '-' then '_' else c.toUpper)

/-- A name of an option, with the word for its value. -/
def Opt.spelled (o : Opt) (name : String) : String :=
  if o.kind = .value then name ++ " " ++ o.valueWord else name

/-- An option in the usage. -/
def Opt.part (o : Opt) : String :=
  "[" ++ o.spelled o.key ++ "]"

/-- An option in the help. -/
def Opt.label (o : Opt) : String :=
  ", ".intercalate (o.names.map o.spelled)

/-- The commands to choose from. -/
def choice (commands : List (String × String)) : String :=
  "\x7b" ++ ",".intercalate (commands.map (·.1)) ++ "\x7d"

/-- An operand in the usage. -/
def Operand.parts : Operand → List String
  | .none => []
  | .optional name _ => ["[" ++ name ++ "]"]
  | .required name _ => [name]
  | .command _ commands => [choice commands, "..."]

/-! ## The usage -/

/-- What a usage starts with. -/
def usageLead : String := "usage: "

/-- The parts in rows that fit into a width. `used` is what the current row takes so far, and
`indent` what a new one starts with. -/
def rowsFrom (width indent used : Nat) (row : List String) : List String → List (List String)
  | [] => if row.isEmpty then [] else [row]
  | part :: rest =>
    if width < used + part.length && !row.isEmpty then
      row :: rowsFrom width indent (indent + part.length + 1) [part] rest
    else rowsFrom width indent (used + part.length + 1) (row ++ [part]) rest

/-- The parts in indented lines. -/
def indentedLines (width indent : Nat) (parts : List String) : List String :=
  (rowsFrom width indent indent [] parts).map fun row => blanks indent ++ " ".intercalate row

/-- The lines of a usage behind a program with a short name. -/
def besideLines (width : Nat) (program : String) (options operands : List String) : List String :=
  let indent := usageLead.length + program.length + 1
  match rowsFrom width indent usageLead.length [] (program :: options) with
  | [] => []
  | row :: rows =>
    " ".intercalate row :: rows.map (fun row => blanks indent ++ " ".intercalate row) ++
      indentedLines width indent operands

/-- The lines of a usage below a program with a long name. -/
def belowLines (width : Nat) (program : String) (options operands : List String) : List String :=
  let indent := usageLead.length
  match indentedLines width indent (options ++ operands) with
  | [] => [program]
  | [line] => [program, line]
  | _ =>
    program :: indentedLines width indent options ++ indentedLines width indent operands

/-- How a program is called. -/
def Grammar.usage (g : Grammar) (width : Nat) : String :=
  let options := g.options.map Opt.part
  let operands := g.operand.parts
  let whole := " ".intercalate (g.program :: options ++ operands)
  let lines :=
    if usageLead.length + whole.length ≤ width then [whole]
    else if 4 * (usageLead.length + g.program.length) ≤ 3 * width then
      besideLines width g.program options operands
    else belowLines width g.program options operands
  joinLines [usageLead ++ "\n".intercalate lines]

/-! ## The help -/

/-- A row of a table. -/
structure Row where
  indent : Nat
  label : String
  note : String
  deriving DecidableEq, Repr

/-- The rows on an operand; commands have rows of their own. -/
def Operand.rows : Operand → List Row
  | .none => []
  | .optional name note => [⟨2, name, note⟩]
  | .required name note => [⟨2, name, note⟩]
  | .command _ commands =>
    ⟨2, choice commands, ""⟩ :: commands.map fun (name, note) => ⟨4, name, note⟩

/-- The row on an option. -/
def Opt.row (o : Opt) : Row :=
  ⟨2, o.label, o.note⟩

/-- The column of the notes. -/
def noteColumn (width : Nat) (rows : List Row) : Nat :=
  min ((rows.map (·.label.length)).foldl max 0 + 4) (min 24 (max (width - 20) 4))

/-- The least width of a text. -/
def leastWidth : Nat := 11

/-- The lines of a row. -/
def Row.lines (width column : Nat) (r : Row) : List String :=
  let start := blanks r.indent ++ r.label
  let note := Text.Wrap.wrap (max (width - column) leastWidth) r.note
  let below := note.map (blanks column ++ ·)
  match note with
  | [] => [start]
  | first :: _ =>
    if start.length + 2 ≤ column then
      (start ++ blanks (column - start.length) ++ first) :: below.tail
    else start :: below

/-- A table with its heading; a table without rows is left out. -/
def table (width column : Nat) (heading : String) (rows : List Row) : List String :=
  if rows.isEmpty then []
  else [joinLines (heading :: rows.flatMap (Row.lines width column))]

/-- The help on a program. -/
def Grammar.help (g : Grammar) (width : Nat) : String :=
  let operands := g.operand.rows
  let options := g.options.map Opt.row
  let column := noteColumn width (operands ++ options)
  let about := match Text.Wrap.wrap (max width leastWidth) g.about with
    | [] => []
    | lines => [joinLines lines]
  "\n".intercalate (g.usage width :: about ++ table width column "positional arguments:" operands ++
    table width column "options:" options)

end ConsoleSweep.Arguments
