/-
  Cleaning: files are written anew without their calls.

  Nothing is written without consent. A file that was cleaned leaves the store; one
  that could not be cleaned stays and is counted. If the work is given up in the
  middle, what was done by then is kept.
-/
import ConsoleSweep.Prompt
import ConsoleSweep.Removal
import ConsoleSweep.Report
import ConsoleSweep.Settings
import ConsoleSweep.Store

namespace ConsoleSweep

/-- What a clean run came to. -/
structure CleanSummary where
  filesTotal : Nat := 0
  cleaned : Nat := 0
  failed : Nat := 0
  cancelled : Bool := false
  failedPaths : List String := []
  deriving DecidableEq, Repr

namespace Clean

open ConsoleSweep.Text

/-- The logger of this part. -/
def logger : String := "console_cleaner.core.cleaner"

/-- Writes a file without its calls. The answer is whether there was anything to write. -/
def strip (methods : List String) (path : String) : Sweep Bool := do
  let content ← Sweep.readText path
  let cleaned := Removal.removeCalls methods content
  if cleaned = content then return false
  Sweep.writeText path cleaned
  return true

/-- Reports a file that could not be cleaned. -/
def reportFailure (path : String) (f : Fault) : Sweep Unit :=
  Sweep.log logger Log.warning ("Failed to clean " ++ path ++ ": " ++ f.message)

/-- Cleans a file that need not be in a store. The answer is whether it could be done. -/
def file (methods : List String) (path : String) : Sweep Bool := do
  match ← Sweep.attempt (strip methods path) with
  | .ok _ => return true
  | .error f =>
    if f.isFileTrouble then
      reportFailure path f
      return false
    else Sweep.fail f

/-- The state of a clean run. -/
structure Run where
  store : Store
  summary : CleanSummary

/-- A file was cleaned: it leaves the store. -/
def Run.succeed (r : Run) (path : String) : Run :=
  ⟨r.store.remove path, { r.summary with cleaned := r.summary.cleaned + 1 }⟩

/-- A file could not be cleaned. -/
def Run.fail (r : Run) (path : String) : Run :=
  ⟨r.store, { r.summary with
    failed := r.summary.failed + 1, failedPaths := r.summary.failedPaths ++ [path] }⟩

/-- Adds what became of a file to the report, if there is one. A report that cannot be written is
only mentioned in the log. -/
def addToReport (report : Option Path) (path : String) (calls : Int) (failure : Option Fault) :
    Sweep Unit := do
  match report with
  | none => pure ()
  | some p =>
    match ← Sweep.attempt (Report.appendCleaned p (.str path) (.int calls) failure.isNone
        (.str ((failure.map Fault.message).getD ""))) with
    | .ok _ => pure ()
    | .error f =>
      if f.isRefusal then
        Sweep.log logger Log.warning
          ("Could not append to clean report " ++ p.text ++ ": " ++ f.message)
      else Sweep.fail f

/-- Cleans a file of the store. The run goes on unless there is a fault that is no trouble with a
file. -/
def cleanOne (methods : List String) (report : Option Path) (r : Run) (path : String) :
    Sweep (Run × Option Fault) := do
  let calls := (r.store.get? path).getD 0
  let failure ← match ← Sweep.attempt (strip methods path) with
    | .ok changed =>
      Sweep.log logger Log.debug
        ("Cleaned " ++ path ++ " (changed=" ++ (Json.bool changed).shown ++ ")")
      pure none
    | .error f => do
      if f.isFileTrouble then reportFailure path f
      pure (some f)
  match failure.filter fun f => !f.isFileTrouble with
  | some f => return (r, some f)
  | none =>
    Sweep.count fun m now => m.recordCleaned now failure.isNone
    let r := if failure.isNone then r.succeed path else r.fail path
    match ← Sweep.attempt (addToReport report path calls failure) with
    | .ok _ => return (r, none)
    | .error f => return (r, some f)

/-- Cleans files one after the other; each has its number. -/
def cleanEach (methods : List String) (report : Option Path)
    (progress : Nat → String → Sweep Unit) (r : Run) :
    List (String × Nat) → Sweep (Run × Option Fault)
  | [] => return (r, none)
  | (path, i) :: rest => do
    progress i path
    match ← cleanOne methods report r path with
    | (r, none) => cleanEach methods report progress r rest
    | stopped => return stopped

/-- Whether the work may be done: there is no need to ask, or the answer is yes. -/
def isConfirmed (settings : CleanerSettings) (confirm : Option (String → Sweep Bool))
    (message : String) : Sweep Bool := do
  if !settings.confirm then return true
  match confirm with
  | some ask => ask message
  | none =>
    Sweep.log logger Log.warning
      "Cleaning requires confirmation but no prompt is available; skipping"
    return false

/-- The outcome of a run: its store, and its summary unless it was given up. -/
def outcome (r : Run) : Option Fault → Store × Except Fault CleanSummary
  | none => (r.store, .ok r.summary)
  | some f => (r.store, .error f)

/-- Cleans all files of a store. `progress` is told the number of a file, the number of all files,
and the path. -/
def all (store : Store) (settings : CleanerSettings) (confirm : Option (String → Sweep Bool))
    (progress : Nat → Nat → String → Sweep Unit) (report : Option Path) :
    Sweep (Store × Except Fault CleanSummary) := do
  let files := store.paths
  let total := files.length
  let start : CleanSummary := { filesTotal := total }
  if files.isEmpty then return (store, .ok start)
  if !(← isConfirmed settings confirm
      (Prompt.cleanAll (ofInt store.totalCalls) (ofNat total))) then
    return (store, .ok { start with cancelled := true })
  let (r, stop) ← cleanEach settings.methods report (fun i path => progress i total path)
    ⟨store, start⟩ (files.zipIdx 1)
  if stop.isNone then
    Sweep.log logger Log.info
      ("Clean run finished: " ++ ofNat r.summary.cleaned ++ " cleaned, " ++
        ofNat r.summary.failed ++ " failed")
  return outcome r stop

/-- The path under which a store knows a file: its absolute path, or its real path if only that
is recorded. -/
def keyOf (store : Store) (path : String) : Sweep String := do
  let key ← Sweep.absolute path
  if store.contains key then return key
  Sweep.checkPath key
  let real := ((← Sweep.world).disk.realPath? key).getD key
  return if store.contains real then real else key

/-- Cleans one file, whether or not the store knows it. -/
def single (path : String) (store : Store) (settings : CleanerSettings)
    (confirm : Option (String → Sweep Bool)) (report : Option Path) :
    Sweep (Store × Except Fault CleanSummary) := do
  let key ← keyOf store path
  let start : CleanSummary := { filesTotal := 1 }
  if !(← isConfirmed settings confirm
      (Prompt.cleanFile key (ofInt ((store.get? key).getD 0)))) then
    return (store, .ok { start with cancelled := true })
  let (r, stop) ← cleanOne settings.methods report ⟨store, start⟩ key
  return outcome r stop

end Clean

end ConsoleSweep
