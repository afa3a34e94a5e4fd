/-
  The command line tool.

  The tool reads the files that a command line may be about into a tree in memory,
  lets the program work on the tree, prints what it has printed, and writes the
  files that have changed. Nothing is decided here.
-/
import ConsoleSweep.Program
import Std.Time.Format

namespace ConsoleSweep.Tool

/-! ## Reading and writing files -/

/-- A path to look at; `deep` if all below it is needed as well. -/
structure Errand where
  place : Place
  deep : Bool

/-- The errands for a path: the directories above it, and itself. -/
def errandsFor (path : String) : List Errand :=
  let parts := Path.namedParts path
  (List.range parts.length).map fun k => ⟨parts.take (k + 1), k + 1 = parts.length⟩

/-- When a file was last written. -/
def stampOf (info : IO.FS.Metadata) : Stamp :=
  .at (info.modified.sec * 1000000000 + info.modified.nsec.toNat)

/-- The files, with a lock on the one at a place unless it may be written. -/
def lockUnless (writable : Bool) (place : Place) (d : Disk) : Disk :=
  if writable then d
  else { d with medium := { d.medium with locked := place :: d.medium.locked } }

/-- Reads what stands at the paths, and all below them. Links are followed; one that leads nowhere
is kept as such. Devices are not read, and what is written to them is lost. -/
def loadTree (cwd : Place) (paths : List String) : IO Disk := do
  let here ← IO.currentDir
  let mut disk : Disk := ⟨[], ⟨cwd, 0⟩, [], 0, {}⟩
  let mut done : List Place := []
  let mut todo := paths.flatMap errandsFor
  repeat
    match todo with
    | [] => break
    | errand :: rest =>
      todo := rest
      if done.contains errand.place then continue
      let path := here / errand.place.text
      try
        match (← path.symlinkMetadata).type with
        | .dir =>
          disk := disk.setNode errand.place .dir
          if errand.deep then
            done := errand.place :: done
            let inside ← path.readDir
            todo := inside.toList.map (fun e => ⟨errand.place ++ [e.fileName], true⟩) ++ todo
        | .symlink =>
          let goal := (← IO.FS.realPath path).toString
          if ← path.pathExists then
            disk := disk.setNode errand.place (.link goal)
            todo := errandsFor goal ++ todo
          else disk := disk.setNode errand.place (.link "")
        | .file =>
          done := errand.place :: done
          let bytes ← IO.FS.readBinFile path
          disk := disk.setNode errand.place (.file bytes.toList (stampOf (← path.metadata)))
          -- Opening it for appending changes nothing, and is refused if the file may not be written.
          let writable ← try
            discard (IO.FS.Handle.mk path .append)
            pure true
          catch _ => pure false
          disk := lockUnless writable errand.place disk
        | .other =>
          done := errand.place :: done
          disk := disk.setNode errand.place (.file [] (.at 0))
          disk := { disk with
            medium := { disk.medium with sinks := errand.place :: disk.medium.sinks } }
      catch _ => continue
  return disk

/-- Writes the files and directories that differ. -/
def saveTree (before after : Disk) : IO Unit := do
  let here ← IO.currentDir
  for (place, node) in after.nodes do
    if before.nodes.lookup place ≠ some node then
      match node with
      | .dir => IO.FS.createDirAll (here / place.text)
      | .file bytes _ => IO.FS.writeBinFile (here / place.text) ⟨bytes.toArray⟩
      | .link _ => pure ()

/-! ## Surroundings -/

/-- The variables that the program looks at. -/
def variableNames : List String :=
  ["HOME", "COLUMNS", "PYTHON_DOTENV_DISABLED", "LOG_LEVEL", "LOG_TO_FILE", "CONSOLE_LOG_LEVEL",
   "ENABLE_JSON_LOGGING", "METRICS_ENABLED", "CONSOLE_CLEANER_LOG_DIR", "CONSOLE_CLEANER_METHODS",
   "CONSOLE_CLEANER_EXTENSIONS", "CONSOLE_CLEANER_IGNORE", "CONSOLE_CLEANER_CONFIRM",
   "CONSOLE_CLEANER_STORE", "CONSOLE_CLEANER_REPORT", "CONSOLE_CLEANER_METRICS"]

/-- The variables that are set. -/
def readVariables (names : List String) : IO (List (String × String)) :=
  names.filterMapM fun name => do return (← IO.getEnv name).map fun value => (name, value)

/-- The time of day, in seconds. -/
def readClock : IO Float := do
  let t := (← Std.Time.Timestamp.now).toNanosecondsSinceUnixEpoch.toInt
  return Float.ofInt t / 1000000000.0

/-- The surroundings at the start. -/
def readWorld (disk : Disk) (env : List (String × String)) : IO World := do
  let now := Number.real (← readClock)
  return { disk, env, homes := [], now, logTime := now, logging := {}, journal := []
           metrics := none, out := "", err := "", input := [] }

/-- The paths that a command line names, and those where its configuration may be. -/
def mainPaths (cwd : String) (env : List (String × String)) (args : List String) : List String :=
  let named := match Command.parse args with
    | .ok ⟨o, .scan (some r)⟩ | .ok ⟨o, .rescan (some r)⟩ | .ok ⟨o, .watch (some r)⟩
    | .ok ⟨o, .clean (some r) _ _⟩ | .ok ⟨o, .cleanFile r _⟩ => o.configRoot.toList ++ [r]
    | .ok ⟨o, _⟩ => o.configRoot.toList
    | .error _ => []
  let home := ((env.lookup "HOME").map fun h => Path.join h Config.envName).toList
  (named ++ [".env", "logs"] ++ home).map (Path.absolute cwd)

/-- The paths that the configuration names. -/
def configuredPaths (args : List String) : Sweep (List String) := do
  match Command.parse args with
  | .error _ => return []
  | .ok request =>
    let c := ((← Program.loadConfig request.options).override
      (Program.cleanerOverrides request.options) (Program.runtimeOverrides request.options)).1
    let store := (← c.storePath).toList
    let report := (← c.reportPath).toList
    let metrics := (← c.metricsPath).toList
    let logs := (← Sweep.lookupVar "CONSOLE_CLEANER_LOG_DIR").toList
    let cwd ← Sweep.cwd
    let saved ← match store with
      | p :: _ => pure (← Store.load p).paths
      | [] => pure []
    return ((store ++ report ++ metrics).map Path.text ++ logs ++ saved).map (Path.absolute cwd)

/-! ## Running -/

/-- Prints what was printed, except for what has been shown already. -/
def showPrinted (w : World) (shown : String) : IO Unit := do
  (← IO.getStdout).putStr (String.ofList (w.out.toList.drop shown.length))
  (← IO.getStdout).flush
  (← IO.getStderr).putStr w.err

/-- Keeps watching; the process has to be stopped from outside. -/
def keepWatching (paths : List String) (session : Session) (w : World) : IO Unit := do
  let mut session := session
  let mut w := w
  repeat
    IO.sleep (session.config.runtime.watchInterval * 1000.0).toUInt32
    let disk := { (← loadTree w.disk.cwd.base paths) with held := w.disk.held }
    let now := Number.real (← readClock)
    let (outcome, after) := (session.look.run).run 
      { w with disk, now, logTime := now, out := "", err := "" }
    saveTree disk after.disk
    showPrinted after ""
    w := after
    match outcome with
    | .ok next => session := next
    | .error _ => pure ()

/-- The words that end a question, after an answer that means no. -/
def declined : String := "Cancelled\n"

/-- Carries out a command line. -/
def runTool (args : List String) : IO UInt32 := do
  let cwd := (← IO.currentDir).toString
  let env ← readVariables variableNames
  let paths := mainPaths cwd env args
  let first ← readWorld (← loadTree (Path.namedParts cwd) paths) env
  let more := match ((configuredPaths args).run.run first).1 with
    | .ok more => more
    | .error _ => []
  let world := { first with disk := ← loadTree (Path.namedParts cwd) (paths ++ more) }
  -- A run with an empty answer shows whether there is a question, and up to where to print.
  let (_, trial) := (Program.start args).run.run { world with input := ['\n'] }
  let asked := trial.input.isEmpty
  let shown := if asked then (trial.out.dropEnd declined.length).toString else ""
  if asked then
    (← IO.getStdout).putStr shown
    (← IO.getStdout).flush
  let answer ← if asked then (← IO.getStdin).getLine else pure ""
  let (outcome, after) := (Program.start args).run.run { world with input := answer.toList }
  saveTree world.disk after.disk
  showPrinted after shown
  match outcome with
  | .ok (.unparsed code) | .ok (.over code) => return code.toUInt32
  | .ok (.watching session) =>
    keepWatching (paths ++ more) session after
    return 0
  | .error f =>
    (← IO.getStderr).putStrLn ("error: " ++ f.message)
    return 1

end ConsoleSweep.Tool

/-- Carries out the command line. -/
def main (args : List String) : IO UInt32 :=
  ConsoleSweep.Tool.runTool args
