/-
  Settings: what is swept and how, and where the files of a run are.

  Raw settings are the fields of a JSON object. Validation reads each field by its
  own rule, gives a default to a field that is absent, and lists everything that is
  wrong, in the order of the fields. Fields that are not known are kept as they
  are. `fields` writes settings as raw ones again.

  The program leaves it to the package pydantic to read a field as text, number,
  truth value or list. `string`, `stringList`, `bool` and `float` are that package's
  documented conversions, and the wordings in `Complaint` are its wordings; they are
  not the program's own. What a field has to be, its bounds, the check of the method
  names and the defaults are.
-/
import ConsoleSweep.Decimal.Reader
import ConsoleSweep.Json.Number
import ConsoleSweep.Settings.Issue

namespace ConsoleSweep.Settings

open ConsoleSweep.Text

/-- Settings as they are given. -/
abbrev Raw := List (String × Json)

/-- A value, or what is wrong with it. -/
abbrev Checked (α : Type) := Except (List Issue) α

/-! ## Rules for a field -/

/-- Refuses a field as a whole. -/
def refuse {α : Type} (field : String) (c : Complaint) : Checked α :=
  .error [⟨field, none, c⟩]

/-- A string. -/
def string (field : String) : Json → Checked String
  | .str s => .ok s
  | _ => refuse field .notString

/-- A string or nothing. -/
def optionalString (field : String) : Json → Checked (Option String)
  | .null => .ok none
  | v => (string field v).map some

/-- The strings of a list, or a complaint for each item that is none. -/
def stringItems (field : String) : Nat → List Json → Checked (List String)
  | _, [] => .ok []
  | i, v :: vs =>
    match v, stringItems field (i + 1) vs with
    | .str s, .ok rest => .ok (s :: rest)
    | .str _, .error issues => .error issues
    | _, .ok _ => .error [⟨field, some i, .notString⟩]
    | _, .error issues => .error (⟨field, some i, .notString⟩ :: issues)

/-- A list of strings. -/
def stringList (field : String) : Json → Checked (List String)
  | .arr items => stringItems field 0 items
  | _ => refuse field .notList

/-- The words for true and false. -/
def boolWord? (word : String) : Option Bool :=
  if ["1", "on", "t", "true", "y", "yes"].contains word then some true
  else if ["0", "off", "f", "false", "n", "no"].contains word then some false
  else none

/-- Whether a whole number fits into 64 bits. -/
def isWord (n : Int) : Bool :=
  -9223372036854775808 ≤ n && n ≤ 9223372036854775807

/-- Whether a number is whole and between the ends of the numbers of 64 bits. -/
def isWholeWord (x : Float) : Bool :=
  x.floor == x && -9223372036854775808.0 < x && x < 9223372036854775808.0

/-- A truth value, a number that is 0 or 1, or a word. -/
def bool (field : String) : Json → Checked Bool
  | .bool b => .ok b
  | .int n =>
    if n = 0 then .ok false
    else if n = 1 then .ok true
    else refuse field (if isWord n then .unreadableBool else .notBool)
  | .real x =>
    if x == 0.0 then .ok false
    else if x == 1.0 then .ok true
    else refuse field (if isWholeWord x then .unreadableBool else .notBool)
  | .str s =>
    match boolWord? (String.ofList (lower s.toList)) with
    | some b => .ok b
    | none => refuse field .unreadableBool
  | _ => refuse field .notBool

/-- A number, a truth value as 0 or 1, or a text of a number. -/
def float (field : String) : Json → Checked Float
  | .int n =>
    match Decimal.ofInt? n with
    | some x => .ok x
    | none => refuse field .notNumber
  | .real x => .ok x
  | .bool b => .ok (if b then 1.0 else 0.0)
  | .str s =>
    match Decimal.parse? s.toList with
    | some x => .ok x
    | none => refuse field .unreadableNumber
  | _ => refuse field .notNumber

/-- A number above zero. -/
def positive (field : String) (v : Json) : Checked Float := do
  let x ← float field v
  if 0.0 < x then .ok x else refuse field .notPositive

/-- A number not below zero. -/
def notNegative (field : String) (v : Json) : Checked Float := do
  let x ← float field v
  if 0.0 ≤ x then .ok x else refuse field .negative

/-- Method names; there has to be one. -/
def methodNames (field : String) (v : Json) : Checked (List String) := do
  match normalizeNames (← stringList field v) with
  | [] => refuse field .noMethods
  | names => .ok names

/-- Names of folders. -/
def folderNames (field : String) (v : Json) : Checked (List String) :=
  (stringList field v).map normalizeNames

/-- A file ending with its point. -/
def dotted (ending : String) : String :=
  if ending.toList.head? = some '.' then ending else "." ++ ending

/-- File endings, each with its point. -/
def fileEndings (field : String) (v : Json) : Checked (List String) :=
  (stringList field v).map fun names => normalizeNames ((normalizeNames names).map dotted)

/-- The value of a field by its rule, or the default if the field is absent. -/
def fieldOr {α : Type} (raw : Raw) (field : String) (rule : String → Json → Checked α)
    (default : α) : Checked α :=
  match raw.lookup field with
  | some v => rule field v
  | none => .ok default

/-- The complaints about a field. -/
def issuesOf {α : Type} : Checked α → List Issue
  | .ok _ => []
  | .error issues => issues

/-- The fields that are not known. -/
def extrasOf (known : List String) (raw : Raw) : Raw :=
  raw.filter fun f => !known.contains f.1

/-- A list of strings as JSON. -/
def listJson (names : List String) : Json :=
  .arr (names.map .str)

/-- A string or nothing as JSON. -/
def optionalJson : Option String → Json
  | some s => .str s
  | none => .null

/-! ## What is swept -/

/-- The console methods that are looked for unless others are named. -/
def defaultMethods : List String :=
  ["log", "warn", "error", "info", "debug", "trace", "table", "time", "timeEnd", "assert", "count",
   "dir", "dirxml", "group", "groupCollapsed", "groupEnd", "clear"]

/-- The folders that are left out unless others are named. -/
def defaultIgnored : List String :=
  ["node_modules", "build", "dist", ".next", "out", "coverage", ".git", ".vscode", "vendor", "tmp",
   "temp"]

/-- The file endings that are looked at unless others are named. -/
def defaultEndings : List String :=
  [".js", ".jsx", ".ts", ".tsx", ".mjs", ".cjs"]

end Settings

/-- What is swept: the methods, the files, and whether to ask first. -/
structure CleanerSettings where
  methods : List String := Settings.defaultMethods
  ignored : List String := Settings.defaultIgnored
  endings : List String := Settings.defaultEndings
  scanFirst : Bool := true
  confirm : Bool := true
  extras : Settings.Raw := []

namespace CleanerSettings

open Settings

/-- The name of these settings in reports. -/
def group : String := "CleanerSettings"

/-- The names of the fields. -/
def known : List String :=
  ["console_methods", "ignore_folders", "file_extensions", "auto_scan_on_startup",
   "confirm_before_cleaning"]

/-- Reads raw settings. -/
def validate (raw : Raw) : Checked CleanerSettings :=
  let methods := fieldOr raw "console_methods" methodNames defaultMethods
  let ignored := fieldOr raw "ignore_folders" folderNames defaultIgnored
  let endings := fieldOr raw "file_extensions" fileEndings defaultEndings
  let scanFirst := fieldOr raw "auto_scan_on_startup" bool true
  let confirm := fieldOr raw "confirm_before_cleaning" bool true
  match methods, ignored, endings, scanFirst, confirm with
  | .ok methods, .ok ignored, .ok endings, .ok scanFirst, .ok confirm =>
    .ok { methods, ignored, endings, scanFirst, confirm, extras := extrasOf known raw }
  | _, _, _, _, _ =>
    .error (issuesOf methods ++ issuesOf ignored ++ issuesOf endings ++ issuesOf scanFirst ++
      issuesOf confirm)

/-- The settings as raw ones. -/
def fields (s : CleanerSettings) : Raw :=
  [("console_methods", listJson s.methods), ("ignore_folders", listJson s.ignored),
   ("file_extensions", listJson s.endings), ("auto_scan_on_startup", .bool s.scanFirst),
   ("confirm_before_cleaning", .bool s.confirm)] ++ s.extras

end CleanerSettings

/-- Where the files of a run are, and its times. -/
structure RuntimeSettings where
  logLevel : String := "INFO"
  storePath : String := ".console-cleaner/scan_results.json"
  reportPath : Option String := none
  metricsPath : Option String := none
  watchInterval : Float := 1.0
  debounce : Float := 2.0
  extras : Settings.Raw := []

namespace RuntimeSettings

open Settings

/-- The name of these settings in reports. -/
def group : String := "RuntimeSettings"

/-- The names of the fields. -/
def known : List String :=
  ["log_level", "store_path", "report_path", "metrics_path", "watch_interval", "debounce_seconds"]

/-- Reads raw settings. -/
def validate (raw : Raw) : Checked RuntimeSettings :=
  let defaults : RuntimeSettings := {}
  let logLevel := fieldOr raw "log_level" string defaults.logLevel
  let storePath := fieldOr raw "store_path" string defaults.storePath
  let reportPath := fieldOr raw "report_path" optionalString defaults.reportPath
  let metricsPath := fieldOr raw "metrics_path" optionalString defaults.metricsPath
  let watchInterval := fieldOr raw "watch_interval" positive defaults.watchInterval
  let debounce := fieldOr raw "debounce_seconds" notNegative defaults.debounce
  match logLevel, storePath, reportPath, metricsPath, watchInterval, debounce with
  | .ok logLevel, .ok storePath, .ok reportPath, .ok metricsPath, .ok watchInterval, .ok debounce =>
    .ok { logLevel, storePath, reportPath, metricsPath, watchInterval, debounce,
          extras := extrasOf known raw }
  | _, _, _, _, _, _ =>
    .error (issuesOf logLevel ++ issuesOf storePath ++ issuesOf reportPath ++ issuesOf metricsPath ++
      issuesOf watchInterval ++ issuesOf debounce)

/-- The settings as raw ones. -/
def fields (s : RuntimeSettings) : Raw :=
  [("log_level", .str s.logLevel), ("store_path", .str s.storePath),
   ("report_path", optionalJson s.reportPath), ("metrics_path", optionalJson s.metricsPath),
   ("watch_interval", .real s.watchInterval), ("debounce_seconds", .real s.debounce)] ++ s.extras

end RuntimeSettings

end ConsoleSweep
