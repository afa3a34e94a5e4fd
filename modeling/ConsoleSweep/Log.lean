/-
  Log records: their levels, their messages and their texts.

  A record is written as one plain line or as one line of JSON. The JSON form has
  seven fields that every record has, and after them the structured fields that the
  record was given. A record can be given a value for one of its own fields too,
  which then takes the place of what the field was.

  A logger is known by its name and stands below the nearest logger that its name
  leads to; it takes the level of that one if it has none of its own.
-/
import ConsoleSweep.Path
import ConsoleSweep.Text.Lower
import ConsoleSweep.Text.Template
import ConsoleSweep.Time

namespace ConsoleSweep.Log

open ConsoleSweep.Text

/-! ## Levels -/

/-- The level of a message, by its weight. -/
abbrev Level := Int

def debug : Level := 10
def info : Level := 20
def warning : Level := 30
def error : Level := 40
def critical : Level := 50

/-- The name of a level; a level without one is shown by its number. -/
def levelName (level : Level) : String :=
  if level = critical then "CRITICAL"
  else if level = error then "ERROR"
  else if level = warning then "WARNING"
  else if level = info then "INFO"
  else if level = debug then "DEBUG"
  else if level = 0 then "NOTSET"
  else "Level " ++ ofInt level

/-- The name that the records of a level are counted under, by the name of the level. -/
def counterOf (level : String) : String :=
  "log." ++ String.ofList (small level.toList)

/-- What a word in the place of a level stands for: a level, a text or something else. -/
inductive LevelWord where
  | level (l : Level)
  | text
  | other
  deriving DecidableEq, Repr

/-- The words that may stand in the place of a level. -/
def levelWords : List (String × LevelWord) :=
  [("CRITICAL", .level critical), ("FATAL", .level critical), ("ERROR", .level error),
   ("WARNING", .level warning), ("WARN", .level warning), ("INFO", .level info),
   ("DEBUG", .level debug), ("NOTSET", .level 0), ("BASIC_FORMAT", .text), ("_STYLES", .other)]

/-- The meaning of a word in any case; a word without one means the default. -/
def levelWord (word : String) (default : Level) : LevelWord :=
  (levelWords.lookup (String.ofList (upper word.toList))).getD (.level default)

/-- The label of a value in the place of a level: a level is shown by its name, and a name by its
level. A value that is made of others cannot be looked up. -/
def levelLabel (v : Json) : Except Fault Json :=
  let isLevel (n : Number) (entry : String × LevelWord) : Bool :=
    match entry.2 with
    | .level l => n.compare? (.int l) == some .eq
    | _ => false
  match v with
  | .arr _ | .obj _ => .error .badType
  | .str s =>
    .ok (match levelWords.lookup s with
      | some (.level l) => .int l
      | _ => .str ("Level " ++ s))
  | v =>
    .ok (.str (match (Number.ofJson? v).bind fun n => levelWords.find? (isLevel n) with
      | some (name, _) => name
      | none => "Level " ++ v.toText))

/-- A word as the level of a logger. -/
def LevelWord.toLevel : LevelWord → Except Fault Level
  | .level l => .ok l
  | .text => .error (.badValue "unknown level")
  | .other => .error .badType

/-! ## Records -/

/-- Where in a program a record was made. -/
structure Source where
  path : String
  function : Option String
  line : Int
  deriving DecidableEq, Repr

/-- A place that is not told. -/
def Source.unknown : Source := ⟨"", none, 0⟩

/-- A log record. -/
structure Record where
  logger : String
  level : Level
  template : String
  values : List Json
  source : Source
  created : Number
  /-- What the record was given besides its message. -/
  extras : List (String × Json)
  /-- Whether the record is about the counters, and so is not counted itself. -/
  isInternal : Bool

/-- The values of a message: an object on its own is looked into by name. -/
def templateValues : List Json → Template.Values
  | [.obj (f :: fs)] => .one (.obj (f :: fs))
  | values => .row values

/-- A field of a record, unless the record was given another value for it. -/
def Record.attribute (r : Record) (key : String) (own : Json) : Json :=
  (r.extras.lookup key).getD own

/-- The name of the level of a record. -/
def Record.label (r : Record) : Json :=
  r.attribute "levelname" (.str (levelName r.level))

/-- The values of the message of a record, if it has any. -/
def Record.givenValues (r : Record) : Option Template.Values :=
  match r.extras.lookup "args" with
  | none => if r.values.isEmpty then none else some (templateValues r.values)
  | some v => if v.isTruthy then some (.one v) else none

/-- The message of a record, mark by mark. A template without values is its own message. A value in
the place of what makes the message makes none. -/
def Record.marks (r : Record) : Except Fault (List Template.Mark) :=
  let template := (r.attribute "msg" (.str r.template)).toText
  if (r.extras.lookup "getMessage").isSome then .error .badType
  else
    match r.givenValues with
    | none => .ok (Template.marks template.toList)
    | some values => Template.expand template.toList values

/-- The message of a record. -/
def Record.message (r : Record) : Except Fault String :=
  r.marks.map fun ms => String.ofList (ms.map Template.Mark.shown)

/-- The part of the program that a record comes from. -/
def Record.module (r : Record) : String :=
  Path.stemOf r.source.path

/-- The function that a record comes from, if it is told. -/
def Source.functionJson (s : Source) : Json :=
  match s.function with
  | some f => .str f
  | none => .null

/-- The structured fields of a JSON line, in their order. -/
def structuredFields : List String :=
  ["action", "details", "path", "metric_snapshot"]

/-- The structured fields that the record was given. -/
def Record.structured (r : Record) : List (String × Json) :=
  structuredFields.filterMap fun k => (r.extras.lookup k).map fun v => (k, v)

/-- The fields of a record before its message. -/
def Record.before (r : Record) : Except Fault (List (String × Json)) := do
  let stamp ← Time.localIso (← Number.ofJson (r.attribute "created" r.created.toJson))
  return [("timestamp", .str stamp),
    ("level", r.label),
    ("logger", r.attribute "name" (.str r.logger))]

/-- The fields of a record behind its message. -/
def Record.after (r : Record) : List (String × Json) :=
  [("module", r.attribute "module" (.str r.module)),
   ("function", r.attribute "funcName" r.source.functionJson),
   ("line", r.attribute "lineno" (.int r.source.line))] ++ r.structured

/-- A record as a JSON value. -/
def Record.toJson (r : Record) : Except Fault Json := do
  let before ← r.before
  let message ← r.message
  return .obj (before ++ ("message", .str message) :: r.after)

/-- A mark inside a JSON string. -/
def escapedMark : Template.Mark → List Char
  | .char c => Json.escapedChar c
  | .half n => Json.unitEscape n

/-- A record as a line of JSON. A message with half a pair of units has no JSON value, but can be
written all the same. -/
def Record.jsonLine (r : Record) : Except Fault (List Char) := do
  let value ← r.toJson
  if !value.isWritable then throw (.badValue "number with too many digits")
  if Json.depthLimit < value.depth then throw .tooDeep
  let marks ← r.marks
  if marks.all fun m => m == .char m.shown then return value.line
  else
    let message := '"' :: marks.flatMap escapedMark ++ ['"']
    return (Json.obj (← r.before)).line.dropLast ++ ", \"message\": ".toList ++ message ++
      Json.lineFields r.after

/-- A record for the terminal. -/
def Record.brief (r : Record) (message : String) : String :=
  r.label.toText ++ " - " ++ message

/-- A record as a plain line. -/
def Record.plainLine (r : Record) (message : String) : String :=
  Time.logStamp r.created ++ " - " ++ r.logger ++ " - " ++ r.label.toText ++ " - " ++
    Path.baseName r.source.path ++ ":" ++ ofInt r.source.line ++ " - " ++ message

/-! ## Where records go -/

/-- Where a handler puts records. A file is known by its number among the open ones. -/
inductive Sink where
  | silent
  | terminal
  | plainFile (file : Nat)
  | jsonFile (file : Nat)
  | counters
  deriving DecidableEq, Repr

/-- A sink for the records from a level on. -/
structure Handler where
  level : Level
  sink : Sink
  deriving DecidableEq, Repr

/-- A logger that is known: its name, the logger above it, and its level. -/
structure Member where
  name : String
  parent : String
  level : Level
  deriving DecidableEq, Repr

/-- The name of the logger above all others. -/
def rootName : String := "root"

/-- The state of the logging: the loggers that are known, and the handlers that all share. -/
structure Setup where
  members : List Member := []
  rootLevel : Level := warning
  handlers : List Handler := []
  /-- Whether the shared handlers have been put in place. -/
  isReady : Bool := false

/-- The names above a name, nearest first; names are read backwards. A point divides a name, unless
it stands right before the one that was found last. -/
def namesAbove : List Char → List String
  | '.' :: c :: rest => String.ofList (c :: rest).reverse :: namesAbove rest
  | _ :: rest => namesAbove rest
  | [] => []

/-- The names of the loggers that may be above a logger, nearest first. -/
def ancestors (name : String) : List String :=
  namesAbove name.toList.reverse

/-- Whether a name stands for the logger above all others. -/
def isRootName (name : String) : Bool :=
  name = "" || name = rootName

/-- The logger with a name, if it is known. -/
def Setup.member? (s : Setup) (name : String) : Option Member :=
  s.members.find? (·.name = name)

/-- The nearest logger above a name. -/
def Setup.parentOf (s : Setup) (name : String) : String :=
  ((ancestors name).find? fun n => (s.member? n).isSome).getD rootName

/-- Makes a logger known. It comes above the loggers that it is an ancestor of, unless the name of
the one above them begins with its name. -/
def Setup.register (s : Setup) (name : String) : Setup :=
  if isRootName name || (s.member? name).isSome then s
  else
    let below (m : Member) : Bool :=
      (ancestors m.name).contains name && !name.toList.isPrefixOf m.parent.toList
    let members := s.members.map fun m => if below m then { m with parent := name } else m
    { s with members := members ++ [⟨name, s.parentOf name, 0⟩] }

/-- The level of a logger itself. -/
def Setup.ownLevel (s : Setup) (name : String) : Level :=
  if isRootName name then s.rootLevel else ((s.member? name).map (·.level)).getD 0

/-- The first level on the way up from a logger. The first argument bounds the number of loggers on
the way. -/
def Setup.levelFrom (s : Setup) : Nat → String → Level
  | 0, _ => s.rootLevel
  | fuel + 1, name =>
    match s.member? name with
    | none => s.rootLevel
    | some m => if m.level ≠ 0 then m.level else s.levelFrom fuel m.parent

/-- The level that counts for a logger: its own, or that of the nearest one above that has one. -/
def Setup.effectiveLevel (s : Setup) (name : String) : Level :=
  s.levelFrom (s.members.length + 1)
    (if (s.member? name).isSome then name else s.parentOf name)

/-- Sets the level of a logger. -/
def Setup.setLevel (s : Setup) (name : String) (level : Level) : Setup :=
  if isRootName name then { s with rootLevel := level }
  else
    let s := s.register name
    { s with members := s.members.map fun m => if m.name = name then { m with level } else m }

/-- Whether a logger lets records of a level pass. -/
def Setup.isEnabled (s : Setup) (name : String) (level : Level) : Bool :=
  0 < level && s.effectiveLevel name ≤ level

end ConsoleSweep.Log
