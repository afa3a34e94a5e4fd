/-
  What can be wrong with a configured value.
-/
import ConsoleSweep.Text.Basic

namespace ConsoleSweep.Settings

/-- The kinds of complaint. -/
inductive Complaint where
  | notString
  | notList
  | notBool
  | unreadableBool
  | notNumber
  | unreadableNumber
  | notPositive
  | negative
  | noMethods
  deriving DecidableEq, Repr

/-- The short name of a complaint. -/
def Complaint.kind : Complaint → String
  | .notString => "string_type"
  | .notList => "list_type"
  | .notBool => "bool_type"
  | .unreadableBool => "bool_parsing"
  | .notNumber => "float_type"
  | .unreadableNumber => "float_parsing"
  | .notPositive => "greater_than"
  | .negative => "greater_than_equal"
  | .noMethods => "value_error"

/-- The wording of a complaint. -/
def Complaint.message : Complaint → String
  | .notString => "Input should be a valid string"
  | .notList => "Input should be a valid list"
  | .notBool => "Input should be a valid boolean"
  | .unreadableBool => "Input should be a valid boolean, unable to interpret input"
  | .notNumber => "Input should be a valid number"
  | .unreadableNumber => "Input should be a valid number, unable to parse string as a number"
  | .notPositive => "Input should be greater than 0"
  | .negative => "Input should be greater than or equal to 0"
  | .noMethods => "Value error, console_methods must name at least one method"

/-- A complaint about a field, or about one item of its list. -/
structure Issue where
  field : String
  index : Option Nat
  complaint : Complaint
  deriving DecidableEq, Repr

/-- Where the complaint is, and the complaint on a line of its own. -/
def Issue.message (i : Issue) : String :=
  let place := match i.index with
    | some k => i.field ++ "." ++ Text.ofNat k
    | none => i.field
  place ++ "\n  " ++ i.complaint.message

/-- The report on a group of settings that cannot be used. -/
def report (group : String) (issues : List Issue) : String :=
  let plural := if issues.length = 1 then "" else "s"
  Text.ofNat issues.length ++ " validation error" ++ plural ++ " for " ++ group ++ "\n" ++
    "\n".intercalate (issues.map Issue.message)

end ConsoleSweep.Settings
