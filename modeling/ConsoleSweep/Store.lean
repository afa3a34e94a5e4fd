/-
  Results of a scan: for each file with calls, how many there are.

  The entries are kept in the order of their paths, by code points, so the list of
  entries is the one view of a store: all else is read off it.
-/
import ConsoleSweep.Json.Number

namespace ConsoleSweep

/-- The recorded counts, in the order of the paths. -/
structure Store where
  items : List (String × Int)
  deriving DecidableEq, Repr

/-- What is recorded for a file. -/
structure FileCount where
  path : String
  count : Int
  deriving DecidableEq, Repr

namespace Store

/-- A store without entries. -/
def empty : Store := ⟨[]⟩

/-- Puts an entry at its place in the order; an entry with the same path is replaced. -/
def insertItem (path : String) (count : Int) : List (String × Int) → List (String × Int)
  | [] => [(path, count)]
  | (p, n) :: rest =>
    if path < p then (path, count) :: (p, n) :: rest
    else if p = path then (path, count) :: rest
    else (p, n) :: insertItem path count rest

/-- Records a count for a path, whatever it is. -/
def put (s : Store) (path : String) (count : Int) : Store :=
  ⟨insertItem path count s.items⟩

/-- Drops the entry of a path. -/
def remove (s : Store) (path : String) : Store :=
  ⟨s.items.filter (·.1 ≠ path)⟩

/-- The count of a path. -/
def get? (s : Store) (path : String) : Option Int :=
  s.items.lookup path

/-- Whether a path is recorded. -/
def contains (s : Store) (path : String) : Bool :=
  (s.get? path).isSome

/-- The recorded paths. -/
def paths (s : Store) : List String :=
  s.items.map (·.1)

/-- What is recorded, file by file. -/
def entries (s : Store) : List FileCount :=
  s.items.map fun (path, count) => ⟨path, count⟩

/-- The number of recorded files. -/
def fileCount (s : Store) : Nat :=
  s.items.length

/-- The number of calls in all files. -/
def totalCalls (s : Store) : Int :=
  s.items.foldr (fun e n => e.2 + n) 0

/-- Records a count above zero; any other count drops the entry. -/
def setCount (s : Store) (path : String) (count : Int) : Store :=
  if 0 < count then s.put path count else s.remove path

/-- `setCount` for a value that may be no whole number: it is compared with zero as it is, and
recorded without its fraction. If it is refused, the answer has the reason. -/
def setValue (s : Store) (path : String) (count : Json) : Store × Option Fault :=
  match Number.isPositive count with
  | .error f => (s, some f)
  | .ok false => (s.remove path, none)
  | .ok true =>
    match Number.toInt count with
    | .error f => (s, some f)
    | .ok n => (s.put path n, none)

/-- The store with the counts above zero of a list. -/
def ofCounts (counts : List (String × Int)) : Store :=
  counts.foldl (fun s e => if 0 < e.2 then s.put e.1 e.2 else s) empty

/-- The counts of the fields of an object; every value has to be readable as a whole number. -/
def countsOf (fields : List (String × Json)) : Except Fault (List (String × Int)) :=
  fields.mapM fun (p, v) => do return (p, ← Number.toInt v)

/-- Records the counts of an object in the place of all there were. If the value is no object, or
one of its counts is refused, the answer has the reason. -/
def replaceAll (s : Store) : Json → Store × Option Fault
  | .obj fields =>
    match countsOf fields with
    | .ok counts => (ofCounts counts, none)
    | .error f => (s, some f)
  | _ => (s, some .noPart)

/-- The store that a new one starts with: a value that counts as absent means no entries. -/
def ofInitial (v : Json) : Except Fault Store :=
  if v.isTruthy then Fault.unlessRefused (empty.replaceAll v) else .ok empty

/-! ## The stored form -/

/-- The version of the stored form. -/
def version : Int := 1

/-- The entries as the fields of an object. -/
def fields (s : Store) : List (String × Json) :=
  s.items.map fun (p, n) => (p, .int n)

/-- The store as a JSON value. -/
def toJson (s : Store) : Json :=
  .obj [("version", .int version), ("files", .obj s.fields)]

/-- The store as a JSON value whose fields are in alphabetical order. -/
def sortedJson (s : Store) : Json :=
  .obj [("files", .obj s.fields), ("version", .int version)]

/-- The text that is saved. -/
def render (s : Store) : List Char :=
  s.sortedJson.indented

/-- The entries of a stored value. -/
def filesOf? (data : Json) : Option (List (String × Json)) :=
  (data.get? "files").bind Json.fields?

/-- Records the entries one after the other. An entry whose count cannot be read is skipped, and
the skipped ones are listed; a count too large to be read ends the work. -/
def addEntries (s : Store) : List (String × Json) → List (String × Json) × Except Fault Store
  | [] => ([], .ok s)
  | (p, v) :: rest =>
    match Number.toInt v with
    | .ok n => addEntries (s.setCount p n) rest
    | .error .tooLarge => ([], .error .tooLarge)
    | .error _ => ((p, v) :: (addEntries s rest).1, (addEntries s rest).2)

end Store

end ConsoleSweep
