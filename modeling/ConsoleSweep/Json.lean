/-
  JSON values. Whole numbers and floating-point numbers are told apart, and an
  object keeps the order of its fields.
-/
import ConsoleSweep.Decimal.Shortest
import ConsoleSweep.Text.Quoted

namespace ConsoleSweep

/-- A JSON value. -/
inductive Json where
  | null
  | bool (b : Bool)
  | int (n : Int)
  | real (x : Float)
  | str (s : String)
  | arr (items : List Json)
  | obj (fields : List (String × Json))
  deriving Repr, Inhabited

namespace Json

/-- The fields of an object. -/
def fields? : Json → Option (List (String × Json))
  | .obj fields => some fields
  | _ => none

/-- A field of an object. -/
def get? (v : Json) (key : String) : Option Json :=
  v.fields?.bind (·.lookup key)

/-- The text of a string. -/
def str? : Json → Option String
  | .str s => some s
  | _ => none

/-- The items of an array. -/
def arr? : Json → Option (List Json)
  | .arr items => some items
  | _ => none

/-- Whether a value counts as present: not null, false, zero or empty. -/
def isTruthy : Json → Bool
  | .null => false
  | .bool b => b
  | .int n => n ≠ 0
  | .real x => !(x == 0.0)
  | .str s => s ≠ ""
  | .arr items => !items.isEmpty
  | .obj fields => !fields.isEmpty

/-- Sets a field: a known key keeps its place, a new one comes last. -/
def setField (key : String) (value : Json) : List (String × Json) → List (String × Json)
  | [] => [(key, value)]
  | (k, v) :: rest =>
    if k = key then (k, value) :: rest else (k, v) :: setField key value rest

/-- The fields of `base` with those of `top` set on it. -/
def overlay (base top : List (String × Json)) : List (String × Json) :=
  top.foldl (fun acc f => setField f.1 f.2 acc) base

mutual

/-- A value as a message shows it, with strings in quotes. -/
def shown : Json → String
  | .null => "None"
  | .bool b => if b then "True" else "False"
  | .int n => Text.ofInt n
  | .real x => Decimal.text x
  | .str s => Text.quoted s
  | .arr items => "[" ++ ", ".intercalate (shownItems items) ++ "]"
  | .obj fields => "\x7b" ++ ", ".intercalate (shownFields fields) ++ "\x7d"

/-- The items of an array, shown. -/
def shownItems : List Json → List String
  | [] => []
  | v :: vs => shown v :: shownItems vs

/-- The fields of an object, shown. -/
def shownFields : List (String × Json) → List String
  | [] => []
  | (k, v) :: fs => (Text.quoted k ++ ": " ++ shown v) :: shownFields fs

end

/-- A value as a text: a string is its own text, any other value is shown. -/
def toText : Json → String
  | .str s => s
  | v => shown v

end Json

end ConsoleSweep
