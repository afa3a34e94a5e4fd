/-
  The program: a command line is carried out in its surroundings.

  Every command is over at once but `watch`, which goes on as a session: it takes a
  look whenever it is told to, until it is finished. `run` carries out a command
  line for a given course of events outside.

  Left out of the whole are: the roll-over of log files (see `Logger.prepare`); files
  that may not be read and directories that may not be listed (see `Disk`); the thread
  of a watch, of which only the looks are kept, one after the other; signals; the source
  lines, function names and call stacks in log records; and the wording of faults that
  end the run, beyond those of files and of settings.
-/
import ConsoleSweep.Arguments.Help
import ConsoleSweep.Clean
import ConsoleSweep.Command
import ConsoleSweep.Config
import ConsoleSweep.Log.Logger
import ConsoleSweep.Store.Files
import ConsoleSweep.Watch

namespace ConsoleSweep

/-- A watch that is going on. -/
structure Session where
  config : Config
  log : Logger
  watcher : Watcher
  store : Store

namespace Program

open ConsoleSweep.Text

/-- What has come of a command line. -/
inductive Stage where
  /-- It was not carried out: there was only the help, or a refusal. -/
  | unparsed (code : Nat)
  /-- It is over. -/
  | over (code : Nat)
  /-- It goes on. -/
  | watching (s : Session)

/-- How a command line has ended. -/
inductive Ending where
  | unparsed (code : Nat)
  | over (code : Nat)
  deriving DecidableEq, Repr

/-- The logger of the program. -/
def loggerName : String := "console_cleaner.cli"

/-! ## Texts -/

/-- Whether an answer means yes. -/
def isYes (answer : List Char) : Bool :=
  let word := lower (trim answer)
  word == "y".toList || word == "yes".toList

/-- Asks a question; no answer means no. -/
def ask (message : String) : Sweep Bool := do
  Sweep.print (message ++ " [y/N] ")
  match ← Sweep.readLine with
  | some answer => return isYes answer
  | none => return false

/-- The way to ask, unless the answer was given beforehand. -/
def consent (yes : Bool) : Option (String → Sweep Bool) :=
  some (if yes then fun _ => pure true else ask)

/-- The line on what was found. -/
def foundLine (s : Store) : String :=
  if s.fileCount = 0 then "No console logs found in your project 🎉"
  else "Found " ++ ofInt s.totalCalls ++ " console log(s) in " ++ ofNat s.fileCount ++ " file(s)"

/-- A path as seen from a directory. -/
def displayPath (cwd root path : String) : String :=
  (Path.relative? cwd path root).getD path

/-- The line on a file. -/
def fileLine (cwd root : String) (entry : FileCount) : String :=
  "  " ++ padLeft 4 ' ' (ofInt entry.count) ++ "  " ++ displayPath cwd root entry.path

/-- Prints what was found, and the files as seen from a directory. -/
def printResults (s : Store) (root : Path) : Sweep Unit := do
  Sweep.say (foundLine s)
  let cwd ← Sweep.cwd
  s.entries.forM fun entry => Sweep.say (fileLine cwd root.text entry)

/-! ## Parts of commands -/

/-- Where the results are kept; there has to be a place. -/
def storeFile (c : Config) : Sweep Path := do
  match ← c.storePath with
  | some p => return p
  | none => Sweep.fail .noPart

/-- The directory that a command works on: the one that was named, or the root of the project. -/
def workRoot (c : Config) (root : Option String) : Sweep Path :=
  match root with
  | none | some "" => Sweep.resolve c.root
  | some r => Sweep.resolve (Path.ofString r)

/-- Scans and saves the results; none if there is nothing to scan. -/
def scanAndSave (c : Config) (log : Logger) (root : Path) : Sweep (Option Store) := do
  let work := log.timed "scan" (Scan.run root.text c.cleaner fun n =>
    Sweep.warn ("Scanned " ++ ofNat n ++ " files..."))
  match ← Sweep.attempt work with
  | .ok (store, summary) =>
    if !summary.unreadable.isEmpty then
      log.log Log.warning (ofNat summary.unreadable.length ++ " file(s) could not be read")
    store.save (← storeFile c)
    return some store
  | .error f =>
    if f.isMissing then
      log.trouble "FileNotFoundError" f.message (.obj [("root", .str root.text)]) "WARNING"
      Sweep.say ("Error scanning workspace: " ++ f.message)
      return none
    else Sweep.fail f

/-- The results that were saved, or those of a scan if one is asked for or nothing was saved. -/
def savedOrScanned (c : Config) (log : Logger) (root : Path) (rescan : Bool) :
    Sweep (Option Store) := do
  if rescan then scanAndSave c log root
  else
    let file ← storeFile c
    if ← Sweep.pathExists file then return some (← Store.load file)
    else scanAndSave c log root

/-- Prints what a clean run came to. -/
def reportClean (s : CleanSummary) : Sweep Nat := do
  if s.failed = 0 then
    Sweep.say ("✅ Successfully cleaned console logs from " ++ ofNat s.cleaned ++ " file(s)")
    return 0
  else
    Sweep.say ("✅ Cleaned " ++ ofNat s.cleaned ++ " file(s). Failed to clean " ++
      ofNat s.failed ++ " file(s).")
    s.failedPaths.forM fun p => Sweep.say ("  ✗ " ++ p)
    return 1

/-! ## Commands -/

/-- Scans. -/
def scan (c : Config) (log : Logger) (root : Option String) : Sweep Nat := do
  let root ← workRoot c root
  match ← scanAndSave c log root with
  | none => return 1
  | some store =>
    printResults store root
    return 0

/-- Shows the saved results. -/
def showResults (c : Config) : Sweep Nat := do
  let store ← Store.load (← storeFile c)
  printResults store (← Sweep.resolve c.root)
  return 0

/-- Cleans all files with results. -/
def clean (c : Config) (log : Logger) (root : Option String) (yes rescan : Bool) : Sweep Nat := do
  let root ← workRoot c root
  match ← savedOrScanned c log root rescan with
  | none => return 1
  | some store =>
    if store.fileCount = 0 then
      Sweep.say "No console logs found to clean"
      return 0
    let progress := fun (i n : Nat) (path : String) =>
      Sweep.warn ("Cleaning " ++ ofNat i ++ "/" ++ ofNat n ++ ": " ++ Path.baseName path)
    let (store, outcome) ← Clean.all store c.cleaner (consent yes) progress (← c.reportPath)
    let summary ← Sweep.ofExcept outcome
    store.save (← storeFile c)
    if summary.cancelled then
      Sweep.say "Cancelled"
      return 0
    log.activity (.str "clean")
      (.obj [("cleaned", .int summary.cleaned), ("failed", .int summary.failed),
        ("failed_paths", Settings.listJson summary.failedPaths)])
      (if summary.failed = 0 then "INFO" else "WARNING")
    log.metricsSnapshot
    reportClean summary

/-- Cleans one file. -/
def cleanFile (c : Config) (path : String) (yes : Bool) : Sweep Nat := do
  let store ← Store.load (← storeFile c)
  let (store, outcome) ← Clean.single path store c.cleaner (consent yes) (← c.reportPath)
  let summary ← Sweep.ofExcept outcome
  if summary.cancelled then
    Sweep.say "Cancelled"
    return 0
  store.save (← storeFile c)
  let name := Path.baseName path
  if summary.cleaned = 0 then
    Sweep.say ("Failed to clean " ++ name)
    return 1
  else
    Sweep.say ("✅ Cleaned console logs from " ++ name)
    return 0

/-- Starts to watch; none if the first scan was not possible. -/
def watch (c : Config) (log : Logger) (root : Option String) : Sweep (Option Session) := do
  let root ← workRoot c root
  let start ← if c.cleaner.scanFirst then scanAndSave c log root
    else pure (some (← Store.load (← storeFile c)))
  match start with
  | none => return none
  | some store =>
    if c.cleaner.scanFirst then Sweep.say (foundLine store)
    let watcher ← Watcher.new root.text c.cleaner (some (.real c.runtime.debounce))
    Sweep.say ("Watching " ++ root.text ++ " (Ctrl+C to stop)")
    return some ⟨c, log, watcher, store⟩

/-- Writes the counters at the end of a command, if they are asked for. -/
def conclude (c : Config) (log : Logger) (code : Nat) : Sweep Nat := do
  match ← c.metricsPath with
  | none => return code
  | some p =>
    Sweep.writeSnapshot p
    log.log Log.debug ("Wrote metrics snapshot to " ++ p.text)
    return code

/-- Carries out a command as far as it goes by itself. -/
def perform (c : Config) (log : Logger) (command : Command) : Sweep Stage := do
  let finish (work : Sweep Nat) : Sweep Stage := do return .over (← conclude c log (← work))
  match command with
  | .scan root => finish (scan c log root)
  | .rescan root => finish (scan c log root)
  | .show => finish (showResults c)
  | .clean root yes rescan => finish (clean c log root yes rescan)
  | .cleanFile path yes => finish (cleanFile c path yes)
  | .watch root =>
    match ← watch c log root with
    | some session => return .watching session
    | none => finish (pure 1)
  | .config => finish (do
      c.printSummary
      return 0)

/-! ## The whole -/

/-- A field for an option that is given and not empty. -/
def overrideField (key : String) (toJson : String → Json) : Option String → Settings.Raw
  | none | some "" => []
  | some v => [(key, toJson v)]

/-- The settings on what is swept that the options ask for. -/
def cleanerOverrides (o : Options) : Settings.Raw :=
  overrideField "console_methods" (fun v => Settings.listJson (splitAt ',' v)) o.methods

/-- The settings on the files of a run that the options ask for. -/
def runtimeOverrides (o : Options) : Settings.Raw :=
  overrideField "store_path" .str o.store ++ overrideField "report_path" .str o.report ++
    overrideField "metrics_path" .str o.metrics ++
    overrideField "log_level" (fun v => .str (String.ofList (upper v.toList))) o.logLevel

/-- The configuration before the options are applied. -/
def loadConfig (o : Options) : Sweep Config := do
  match o.configRoot with
  | none => Sweep.fail .badType
  | some root =>
    let root ← Sweep.resolve (Path.ofString root)
    let (c, stop) ← Config.loadAll { root }
    match stop with
    | none => return c
    | some f => Sweep.fail f

/-- Carries out a command line that makes sense. -/
def carryOut (r : Request) : Sweep Stage := do
  let c ← loadConfig r.options
  match c.override (cleanerOverrides r.options) (runtimeOverrides r.options) with
  | (_, some f) =>
    Sweep.say ("Invalid option: " ++ f.message)
    return .over 2
  | (c, none) =>
    let log ← Logger.create loggerName (some c.runtime.logLevel)
    log.log Log.debug ("Running " ++ r.command.name ++ " with root " ++ c.root.text)
    perform c log r.command

/-- How many columns a screen has that says nothing about it. -/
def usualColumns : Nat := 80

/-- The width of a text for the screen: all its columns but two. -/
def screenWidth : Sweep Nat := do
  let columns := ((← Sweep.lookupVar "COLUMNS").bind fun s => Number.readInt? s.toList).getD 0
  return (if 0 < columns then columns.toNat else usualColumns) - 2

/-- Carries out a command line as far as it goes by itself. -/
def start (args : List String) : Sweep Stage := do
  match Command.parse args with
  | .ok request => carryOut request
  | .error (.help g) =>
    Sweep.print (g.help (← screenWidth))
    return .unparsed 0
  | .error (.refusal g message) =>
    let usage := g.usage (← screenWidth)
    modify fun w => { w with err := w.err ++ usage ++ g.program ++ ": error: " ++ message ++ "\n" }
    return .unparsed 2

/-- Saves and shows results that have changed. -/
def showUpdate (c : Config) (s : Store) : Sweep Unit := do
  s.save (← storeFile c)
  Sweep.say (foundLine s)

end Program

namespace Session

/-- Takes a look. -/
def look (s : Session) : Sweep Session := do
  let now := (← Sweep.world).now
  let (watcher, store) ← s.watcher.tick s.store now (Program.showUpdate s.config)
  return { s with watcher, store }

/-- Ends the watch. -/
def finish (s : Session) : Sweep Nat :=
  Program.conclude s.config s.log 0

end Session

namespace Program

/-- Carries out a command line. Each of `events` is a change of the files from outside, after
which a watch takes a look. -/
def run (args : List String) (events : List (Disk → Disk)) : Sweep Ending := do
  match ← start args with
  | .unparsed code => return .unparsed code
  | .over code => return .over code
  | .watching session =>
    let session ← events.foldlM (fun (s : Session) change => do
      modify fun w => { w with disk := change w.disk }
      s.look) session
    return .over (← session.finish)

end Program

end ConsoleSweep
