/-
  A logger by its name, with the handlers that all loggers share.

  Opening the first logger puts the handlers in place, as the environment asks:
  the terminal, log files, and the counters.

  Left out is the roll-over of log files. A record that would bring the plain log to 10 MiB, or
  the structured one to 5 MiB, has the file moved to the same name with `.1` after it, and the
  earlier parts to `.2`, `.3` and so on, up to 5 and 3 of them. Here a log file only grows.
-/
import ConsoleSweep.World

namespace ConsoleSweep

/-- A logger. -/
structure Logger where
  name : String
  deriving DecidableEq, Repr

namespace Logger

open ConsoleSweep.Text

/-- Whether a switch in the environment is on. -/
def isOn (name default : String) : Sweep Bool := do
  let value := (← Sweep.lookupVar name).getD default
  return !(["0", "false", "no"].contains (String.ofList (lower value.toList)))

/-- Adds a handler for all loggers. -/
def addHandler (h : Log.Handler) : Sweep Unit :=
  modify fun w => { w with logging := { w.logging with handlers := w.logging.handlers ++ [h] } }

/-- Opens a log file in a directory. -/
def openFile (dir : Path) (name : String) : Sweep Nat := do
  Sweep.holdFile (← Sweep.absolute (dir.child name).text)

/-- Puts the shared handlers in place, unless there are handlers already. The log files are
those that grow without end: see above for the roll-over. -/
def prepare (level : Log.Level) : Sweep Unit := do
  if !(← Sweep.world).logging.handlers.isEmpty then return
  let word := (← Sweep.lookupVar "CONSOLE_LOG_LEVEL").getD "WARNING"
  let terminalLevel ← Sweep.ofExcept (Log.levelWord word Log.warning).toLevel
  modify fun w => { w with logging := { w.logging with rootLevel := level } }
  addHandler ⟨terminalLevel, .terminal⟩
  if ← isOn "LOG_TO_FILE" "1" then
    let dir := Path.ofString ((← Sweep.lookupVar "CONSOLE_CLEANER_LOG_DIR").getD "logs")
    Sweep.makeDirs dir
    let date ← Sweep.ofExcept (Time.compactDate (← Sweep.world).now)
    addHandler ⟨level, .plainFile (← openFile dir ("console_cleaner_" ++ date ++ ".log"))⟩
    if ← isOn "ENABLE_JSON_LOGGING" "0" then
      addHandler ⟨level, .jsonFile (← openFile dir ("console_cleaner_json_" ++ date ++ ".log"))⟩
  if ← isOn "METRICS_ENABLED" "1" then addHandler ⟨0, .counters⟩

/-- Opens a logger. Without a level it takes that of the environment. -/
def create (name : String) (level : Option String) : Sweep Logger := do
  let word ← match level with
    | some word => pure word
    | none => pure ((← Sweep.lookupVar "LOG_LEVEL").getD "INFO")
  modify fun w => { w with logging := w.logging.register name }
  let level ← Sweep.ofExcept (Log.levelWord word Log.info).toLevel
  modify fun w => { w with logging := w.logging.setLevel name level }
  if !(← Sweep.world).logging.isReady then
    prepare level
    modify fun w => { w with logging := { w.logging with isReady := true } }
  return ⟨name⟩

/-- The level that was set for a logger. -/
def level (l : Logger) : Sweep Log.Level :=
  return (← Sweep.world).logging.ownLevel l.name

/-- The name under which the records of a logger are shown. -/
def shownName (l : Logger) : String :=
  if Log.isRootName l.name then "root" else l.name

/-- Logs a message. -/
def log (l : Logger) (level : Log.Level) (message : String) : Sweep Unit :=
  Sweep.log l.shownName level message

/-- A word as the level of a message. -/
def messageLevel (word : String) (default : Log.Level) : Sweep Log.Level :=
  match Log.levelWord word default with
  | .level level => pure level
  | _ => Sweep.fail .badType

/-- Logs an activity and counts it. -/
def activity (l : Logger) (action details : Json) (word : String) : Sweep Unit := do
  let level ← messageLevel word Log.info
  Sweep.logWith l.shownName level ("ACTIVITY: " ++ action.toText)
    [("action", action), ("details", details)] false
  Sweep.count fun m now => m.record now ("activity." ++ action.toText) (level < Log.error) (.int 1)

/-- Logs how long an operation took. -/
def performance (l : Logger) (operation : String) (duration : Number) : Sweep Unit := do
  if !duration.isFloatable then Sweep.fail .tooLarge
  l.log Log.info
    ("PERFORMANCE: " ++ operation ++ " took " ++ Decimal.fixed 2 duration.toFloat ++ "s")

/-- Does the work, and logs how long it took whether it was given up or not. -/
def timed {α : Type} (l : Logger) (operation : String) (work : Sweep α) : Sweep α := do
  let start := (← Sweep.world).now
  let outcome ← Sweep.attempt work
  l.performance operation (← Sweep.ofExcept ((← Sweep.world).now.minus start))
  Sweep.ofExcept outcome

/-- Logs an error of a kind, with what is known about it, and counts it. -/
def trouble (l : Logger) (kind message : String) (context : Json) (word : String) :
    Sweep Unit := do
  let w ← Sweep.world
  let stamp ← Sweep.ofExcept (Time.localIso w.now)
  let trace := if w.logging.isEnabled l.shownName Log.debug
    then [("traceback", Json.str (kind ++ ": " ++ message))] else []
  let details := Json.obj
    ([("timestamp", .str stamp), ("error_type", .str kind), ("error_message", .str message),
      ("context", context)] ++ trace)
  let level ← messageLevel word Log.error
  Sweep.logWith l.shownName level ("ERROR: " ++ kind ++ ": " ++ message) [("details", details)] false
  Sweep.count fun m now => m.recordError now "exception"

/-- Logs the state of the counters. -/
def metricsSnapshot (l : Logger) : Sweep Unit := do
  let shown ← Sweep.snapshot
  Sweep.logWith l.shownName Log.info "METRICS_SNAPSHOT" [("metric_snapshot", shown)] true

end Logger

end ConsoleSweep
