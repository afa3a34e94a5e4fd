/-
  Stores on disk. A store is saved as JSON; loading never complains about a file
  that is missing or damaged, beyond a line in the log.
-/
import ConsoleSweep.Store
import ConsoleSweep.World

namespace ConsoleSweep.Store

/-- The logger of this part. -/
def logger : String := "console_cleaner.core.storage.scan_store"

/-- Saves a store. -/
def save (s : Store) (p : Path) : Sweep Unit := do
  Sweep.makeDirs p.parent
  if !s.toJson.isWritable then
    Sweep.fail (.badValue "number with too many digits")
  Sweep.writeText p.text s.render

/-- The JSON value in a file; line breaks of any kind are read as one. -/
def readJson (path : String) : Sweep Json := do
  let text ← Sweep.readText path
  match Json.parse (Text.unifyBreaks text) with
  | .ok v => return v
  | .error e => Sweep.fail (.ofParse e)

/-- Loads a store; a file that is missing or cannot be used means an empty one. -/
def load (p : Path) : Sweep Store := do
  if !(← Sweep.pathExists p) then return empty
  match ← Sweep.attempt (readJson p.text) with
  | .error .tooDeep => Sweep.fail .tooDeep
  | .error f =>
    Sweep.log logger Log.warning ("Could not read result store " ++ p.text ++ ": " ++ f.message)
    return empty
  | .ok data =>
    match filesOf? data with
    | none =>
      Sweep.log logger Log.warning
        ("Result store " ++ p.text ++ " should contain a 'files' mapping.")
      return empty
    | some entries =>
      let (skipped, outcome) := empty.addEntries entries
      skipped.forM fun (path, v) =>
        Sweep.log logger Log.debug ("Skipping malformed count for " ++ path ++ ": " ++ v.shown)
      Sweep.ofExcept outcome

end ConsoleSweep.Store
