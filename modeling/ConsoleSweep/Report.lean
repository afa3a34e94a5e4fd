/-
  Reports: rows of comma-separated values that are added to a file. The first row
  of a file names the columns.
-/
import ConsoleSweep.Csv
import ConsoleSweep.World

namespace ConsoleSweep.Report

/-- A value as a field; nothing is an empty field. -/
def fieldText : Json → List Char
  | .null => []
  | v => v.toText.toList

/-- Whether a value can name a column. -/
def namesColumn : Json → Bool
  | .arr _ => false
  | .obj _ => false
  | _ => true

/-- The value of a column. -/
def column (row : List (String × Json)) : Json → List Char
  | .str name => fieldText ((row.lookup name).getD .null)
  | _ => []

/-- The row with the values of the columns; other values are left out. -/
def rowText (row : List (String × Json)) (header : List Json) : List Char :=
  Csv.row (header.map (column row))

/-- Whether two values name the same column; numbers do if they are equal. -/
def isSameName (a b : Json) : Bool :=
  match a, b with
  | .str s, .str t => s = t
  | .null, .null => true
  | a, b =>
    match Number.ofJson? a, Number.ofJson? b with
    | some m, some n => m.compare? n == some .eq
    | _, _ => false

/-- The row that names the columns. Of several values that name the same column the last counts. -/
def headerText (header : List Json) : List Char :=
  Csv.row (header.map fun name =>
    fieldText (((header.filter (isSameName name)).getLast?).getD name))

/-- Whether the file at a path has anything in it; a directory does. -/
def hasContent (p : Path) : Sweep Bool := do
  if !(← Sweep.pathExists p) then return false
  match (← Sweep.world).disk.stat p.text with
  | .ok (.file bytes _) => return !bytes.isEmpty
  | .ok _ => return true
  | .error _ => return false

/-- Adds the text of a row behind what comes before it. A row that no file can hold is refused, but
what comes before it is written by then. -/
def addRow (p : Path) (lead text : List Char) : Sweep Unit := do
  if !(← Sweep.world).disk.medium.canHold text then
    Sweep.appendText p.text lead
    Sweep.fail .unencodable
  Sweep.appendText p.text (lead ++ text)

/-- Adds a row to a report. There is no header if what was given for it cannot be gone through. The
row is asked for each column, so it has to be an object if there are any. -/
def append (p : Path) (row : Json) (header : Option (List Json)) : Sweep Unit := do
  let isBegun ← hasContent p
  Sweep.makeDirs p.parent
  Sweep.appendText p.text []
  match header with
  | none => Sweep.fail .badType
  | some header =>
    let hasNames := header.all namesColumn
    if !isBegun && !hasNames then Sweep.fail .badType
    let lead := if isBegun then [] else headerText header
    Sweep.checkText lead
    if row.fields?.isNone && !header.isEmpty then
      Sweep.appendText p.text lead
      Sweep.fail .noPart
    if !hasNames then Sweep.fail .badType
    addRow p lead (rowText (row.fields?.getD []) header)

/-- The columns of a report on cleaned files. -/
def cleanHeader : List Json :=
  [.str "timestamp_utc", .str "path", .str "calls_before", .str "status", .str "error"]

/-- Adds what became of a file. -/
def appendCleaned (p : Path) (file calls : Json) (success : Bool) (error : Json) : Sweep Unit := do
  let stamp ← Sweep.ofExcept (Time.iso (← Sweep.world).now)
  append p
    (.obj [("timestamp_utc", .str (stamp ++ "+00:00")), ("path", file),
     ("calls_before", .str calls.toText),
     ("status", .str (if success then "cleaned" else "failed")), ("error", error)])
    (some cleanHeader)

end ConsoleSweep.Report
