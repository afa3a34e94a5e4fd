/-
  The configuration of a project.

  Settings come from three places, the later ones on top of the earlier: the
  environment, to which a file of variables may add; the settings file of the
  project; and what is given on the command line. Settings that cannot be used are
  reported and replaced by the defaults, except those of the command line, which
  are refused.
-/
import ConsoleSweep.EnvFile
import ConsoleSweep.Settings
import ConsoleSweep.World

namespace ConsoleSweep

open ConsoleSweep.Settings (Raw)

/-- The configuration of the project at `root`. `cleanerEnv` and `runtimeEnv` are what the
environment says. -/
structure Config where
  root : Path
  loadedEnv : Option Path := none
  cleaner : CleanerSettings := {}
  runtime : RuntimeSettings := {}
  cleanerEnv : Raw := []
  runtimeEnv : Raw := []

namespace Config

open ConsoleSweep.Text

/-- The logger of this part. -/
def logger : String := "console_cleaner.core.config"

/-- The logger for files of variables. -/
def envLogger : String := "env_file"

/-- The name of a file of variables. -/
def envName : String := ".console-cleaner.env"

/-- The directory of the project's own files. -/
def configDir (c : Config) : Path :=
  c.root.child ".console-cleaner"

/-- The settings file of the project. -/
def settingsFile (c : Config) : Path :=
  c.configDir.child "settings.json"

/-- The configuration of the project at a root; without one, of the working directory. -/
def new (root : Option String) : Sweep Config := do
  match root with
  | some (r : String) =>
    if r = "" then return { root := Path.ofString (← Sweep.cwd) }
    else return { root := Path.ofString r }
  | none => return { root := Path.ofString (← Sweep.cwd) }

/-! ## Environment -/

/-- Whether a variable keeps the files of variables from being read. -/
def envFilesOff : Sweep Bool := do
  let word := lower ((← Sweep.lookupVar "PYTHON_DOTENV_DISABLED").getD "").toList
  -- The long s is an old spelling of the letter.
  let word := word.map fun c => if c = '\u017f' then 's' else c
  return ["1", "true", "t", "yes", "y"].contains (String.ofList word)

/-- Adds the variables of a file to the environment; those that are set stay as they are. -/
def loadEnvFile (p : Path) : Sweep Unit := do
  if ← envFilesOff then return
  if !(← Sweep.world).disk.isFile p.text then return
  let text ← Sweep.readText p.text
  let statements := EnvFile.statements (unifyBreaks text)
  statements.forM fun
    | .broken line =>
      Sweep.log envLogger Log.warning
        ("python-dotenv could not parse statement starting at line " ++ ofNat line)
    | _ => pure ()
  let vars := EnvFile.assignments (← Sweep.world).env (EnvFile.bindings statements)
  vars.forM fun (name, value) => do
    match value with
    | some value => if ((← Sweep.lookupVar name)).isNone then Sweep.setVar name value
    | none => pure ()

/-- The home directory. -/
def home : Sweep Path :=
  Sweep.expandHome ⟨"", ["~"]⟩

/-- The first of the paths that leads to something. -/
def firstExisting : List Path → Sweep (Option Path)
  | [] => return none
  | p :: rest => do if ← Sweep.pathExists p then return some p else firstExisting rest

/-- The items of a variable, divided by commas; none if it is blank. -/
def listVariable (name : String) : Sweep (Option (List String)) := do
  let raw := ((← Sweep.lookupVar name).getD "").toList
  if (trim raw).isEmpty then return none
  else return some (((pieces ',' raw).map trim).filter (!·.isEmpty) |>.map String.ofList)

/-- A variable that is set and not empty. -/
def filledVar (name : String) : Sweep (Option String) := do
  match ← Sweep.lookupVar name with
  | some "" => return none
  | v => return v

/-- A field for a value that is there. -/
def fieldOf {α : Type} (key : String) (toJson : α → Json) : Option α → Raw
  | some v => [(key, toJson v)]
  | none => []

/-- The words that mean yes. -/
def isYes (word : String) : Bool :=
  ["1", "true", "yes", "y", "on"].contains (String.ofList (lower word.toList))

/-- What the environment says on what is swept. -/
def cleanerFromEnv : Sweep Raw := do
  let methods := (← listVariable "CONSOLE_CLEANER_METHODS").filter (!·.isEmpty)
  let endings := (← listVariable "CONSOLE_CLEANER_EXTENSIONS").filter (!·.isEmpty)
  let ignored ← listVariable "CONSOLE_CLEANER_IGNORE"
  let confirm ← filledVar "CONSOLE_CLEANER_CONFIRM"
  return fieldOf "console_methods" Settings.listJson methods ++
    fieldOf "file_extensions" Settings.listJson endings ++
    fieldOf "ignore_folders" Settings.listJson ignored ++
    fieldOf "confirm_before_cleaning" (fun w => .bool (isYes w)) confirm

/-- What the environment says on the files of a run. -/
def runtimeFromEnv : Sweep Raw := do
  let level := (← filledVar "LOG_LEVEL").map fun w => String.ofList (upper w.toList)
  return fieldOf "log_level" .str level ++
    fieldOf "store_path" .str (← filledVar "CONSOLE_CLEANER_STORE") ++
    fieldOf "report_path" .str (← filledVar "CONSOLE_CLEANER_REPORT") ++
    fieldOf "metrics_path" .str (← filledVar "CONSOLE_CLEANER_METRICS")

/-- Reports settings that cannot be used. -/
def reportInvalid (group source : String) (issues : List Settings.Issue) : Sweep Unit :=
  Sweep.log logger Log.warning
    ("Invalid " ++ group ++ " from " ++ source ++ ": " ++ Settings.report group issues)

/-- Settings on what is swept, or the defaults with a report. -/
def buildCleaner (raw : Raw) (source : String) : Sweep CleanerSettings := do
  match CleanerSettings.validate raw with
  | .ok s => return s
  | .error issues =>
    reportInvalid CleanerSettings.group source issues
    return {}

/-- Settings on the files of a run, or the defaults with a report. -/
def buildRuntime (raw : Raw) (source : String) : Sweep RuntimeSettings := do
  match RuntimeSettings.validate raw with
  | .ok s => return s
  | .error issues =>
    reportInvalid RuntimeSettings.group source issues
    return {}

/-- Takes the settings from the environment, after the first file of variables that there is: of
the project, of the working directory, or of the home directory. -/
def loadEnv (c : Config) : Sweep Config := do
  let cwd := Path.ofString (← Sweep.cwd)
  let found ← firstExisting [c.root.child envName, cwd.child ".env", (← home).child envName]
  found.forM loadEnvFile
  let loadedEnv := found.orElse fun _ => c.loadedEnv
  loadedEnv.forM fun p => Sweep.log logger Log.debug ("Loaded environment from: " ++ p.text)
  let cleanerEnv ← cleanerFromEnv
  let runtimeEnv ← runtimeFromEnv
  let cleaner ← buildCleaner cleanerEnv "environment"
  let runtime ← buildRuntime runtimeEnv "environment"
  return { c with loadedEnv, cleanerEnv, runtimeEnv, cleaner, runtime }

/-! ## The settings file -/

/-- The JSON value in a file, or the default if there is none or it cannot be used. -/
def loadJson (p : Path) (default : Json) : Sweep Json := do
  if !(← Sweep.pathExists p) then return default
  match ← Sweep.attempt (Sweep.readText p.text) with
  | .error f =>
    if f.isRefusal then
      Sweep.log logger Log.warning ("Could not open " ++ p.text ++ ": " ++ f.message)
      return default
    else Sweep.fail f
  | .ok text =>
    match trim (unifyBreaks text) with
    | [] => return default
    | content =>
      match Json.parse content with
      | .ok v => return v
      | .error e =>
        if e.isMalformed then
          Sweep.log logger Log.warning
            ("Error reading " ++ p.text ++ ": " ++ e.message ++ ". Using defaults.")
          return default
        else Sweep.fail (.ofParse e)

/-- A part of the settings file; a value that counts as absent has no fields. -/
def section_ (fields : Raw) (key : String) : Except Fault Raw :=
  match fields.lookup key with
  | none => .ok []
  | some (.obj fs) => .ok fs
  | some v => if v.isTruthy then .error .badType else .ok []

/-- Puts the settings file on top of the environment. -/
def loadSettings (c : Config) : Sweep Config := do
  let file := c.settingsFile
  let data ← match ← loadJson file (.obj []) with
    | .obj fields => pure fields
    | _ => do
      Sweep.log logger Log.warning ("Invalid format in " ++ file.text ++ ", using defaults")
      pure []
  let cleanerTop ← Sweep.ofExcept (section_ data "cleaner")
  let runtimeTop ← Sweep.ofExcept (section_ data "runtime")
  let cleaner ← buildCleaner (Json.overlay c.cleanerEnv cleanerTop) file.text
  let runtime ← buildRuntime (Json.overlay c.runtimeEnv runtimeTop) file.text
  return { c with cleaner, runtime }

/-- Takes the settings from the environment and the settings file. If the work is given up in the
middle, what was loaded by then is kept. -/
def loadAll (c : Config) : Sweep (Config × Option Fault) := do
  match ← Sweep.attempt c.loadEnv with
  | .error f => return (c, some f)
  | .ok c =>
    match ← Sweep.attempt c.loadSettings with
    | .error f => return (c, some f)
    | .ok c => return (c, none)

/-! ## Overrides -/

/-- Puts fields on top of the settings on what is swept. -/
def overrideCleaner (c : Config) (top : Raw) : Except Fault Config :=
  if top.isEmpty then .ok c
  else
    match CleanerSettings.validate (Json.overlay c.cleaner.fields top) with
    | .ok cleaner => .ok { c with cleaner }
    | .error issues => .error (.invalid CleanerSettings.group issues)

/-- Puts fields on top of the settings on the files of a run. -/
def overrideRuntime (c : Config) (top : Raw) : Except Fault Config :=
  if top.isEmpty then .ok c
  else
    match RuntimeSettings.validate (Json.overlay c.runtime.fields top) with
    | .ok runtime => .ok { c with runtime }
    | .error issues => .error (.invalid RuntimeSettings.group issues)

/-- Puts fields on top of both groups, one after the other; the first is kept if the second is
refused. -/
def override (c : Config) (cleaner runtime : Raw) : Config × Option Fault :=
  match c.overrideCleaner cleaner with
  | .error f => (c, some f)
  | .ok c =>
    match c.overrideRuntime runtime with
    | .error f => (c, some f)
    | .ok c => (c, none)

/-! ## Saving and paths -/

/-- The settings as a JSON value. -/
def payload (c : Config) : Json :=
  .obj [("cleaner", .obj c.cleaner.fields), ("runtime", .obj c.runtime.fields)]

/-- Writes the settings file. -/
def save (c : Config) : Sweep Path := do
  Sweep.makeDirs c.configDir
  if !c.payload.isWritable then Sweep.fail (.badValue "number with too many digits")
  if Json.depthLimit < c.payload.depth then Sweep.fail (.badValue "nested too deeply")
  Sweep.writeText c.settingsFile.text c.payload.indented
  Sweep.log logger Log.info ("Saved config to: " ++ c.settingsFile.text)
  return c.settingsFile

/-- A configured path, seen from the root of the project; an empty one is none. -/
def resolvePath (c : Config) (value : Option String) : Sweep (Option Path) := do
  match value with
  | none => return none
  | some v =>
    if v = "" then return none
    else
      let p ← Sweep.expandHome (Path.ofString v)
      return some (c.root.append p)

/-- Where the results are kept. -/
def storePath (c : Config) : Sweep (Option Path) :=
  c.resolvePath (some c.runtime.storePath)

/-- Where the report goes. -/
def reportPath (c : Config) : Sweep (Option Path) :=
  c.resolvePath c.runtime.reportPath

/-- Where the counters go. -/
def metricsPath (c : Config) : Sweep (Option Path) :=
  c.resolvePath c.runtime.metricsPath

/-- A line of fifty equals signs. -/
def rule : String :=
  String.ofList (List.replicate 50 '=')

/-- Prints the configuration. -/
def printSummary (c : Config) : Sweep Unit := do
  Sweep.say ("\n" ++ rule)
  Sweep.say "Configuration Summary"
  Sweep.say rule
  let methods := c.cleaner.methods
  Sweep.say ("Console methods (" ++ ofNat methods.length ++ "): " ++
    ", ".intercalate (methods.take 6) ++ (if 6 < methods.length then "..." else ""))
  Sweep.say ("File extensions: " ++ ", ".intercalate c.cleaner.endings)
  Sweep.say ("Ignored folders: " ++ ", ".intercalate c.cleaner.ignored)
  Sweep.say ("Confirm before cleaning: " ++ (Json.bool c.cleaner.confirm).shown)
  Sweep.say ("Result store: " ++ ((← c.storePath).map Path.text).getD "None")
  (← c.reportPath).forM fun p => Sweep.say ("Clean report: " ++ p.text)
  (← c.metricsPath).forM fun p => Sweep.say ("Metrics snapshots: " ++ p.text)
  Sweep.say rule

end Config

end ConsoleSweep
