/-
  Scans: the calls in all files below a root, counted file by file.

  A file that cannot be read is listed and does not stop the scan. The results
  replace those of the store.
-/
import ConsoleSweep.Call
import ConsoleSweep.Disk.Walk
import ConsoleSweep.Settings
import ConsoleSweep.Store
import ConsoleSweep.World

namespace ConsoleSweep

/-- What a scan came to. -/
structure ScanSummary where
  root : String
  filesScanned : Nat := 0
  filesWithCalls : Nat := 0
  totalCalls : Nat := 0
  unreadable : List String := []
  deriving DecidableEq, Repr

namespace Scan

/-- The logger of this part. -/
def logger : String := "console_cleaner.core.file_scanner"

/-- How many files there are between two reports on progress. -/
def progressStep : Nat := 50

/-- The number of calls in a file. -/
def countIn (methods : List String) (path : String) : Sweep Nat :=
  return Call.count methods (← Sweep.readText path)

/-- The number of calls in a file; a file that cannot be read has none. -/
def countFile (methods : List String) (path : String) : Sweep Nat := do
  match ← Sweep.attempt (countIn methods path) with
  | .ok n => return n
  | .error f =>
    if f.isFileTrouble then
      Sweep.log logger Log.debug ("Could not read " ++ path ++ ": " ++ f.message)
      return 0
    else Sweep.fail f

/-- The files to look at below a root. A root that cannot be entered has none. -/
def sources (root : String) (endings ignored : List String) : Sweep (List String) := do
  let top ← Sweep.absolute root
  Sweep.checkPath top
  match (← Sweep.world).disk.sources endings ignored top with
  | .ok files => return files
  | .error e =>
    Sweep.log logger Log.debug ("Skipping unreadable directory: " ++ e.message top)
    return []

/-- A scan under way: the files so far, those with calls and those that could not be read, last
one first. -/
structure Tally where
  scanned : Nat := 0
  counts : List (String × Nat) := []
  unreadable : List String := []

/-- Looks at one file more. -/
def scanFile (methods : List String) (progress : Nat → Sweep Unit) (t : Tally) (path : String) :
    Sweep Tally := do
  let t := { t with scanned := t.scanned + 1 }
  if t.scanned % progressStep = 0 then progress t.scanned
  match ← Sweep.attempt (countIn methods path) with
  | .ok found =>
    Sweep.count fun m now => m.recordScanned now (.int found)
    return if 0 < found then { t with counts := (path, found) :: t.counts } else t
  | .error f =>
    if f.isFileTrouble then
      Sweep.log logger Log.debug ("Skipping " ++ path ++ ": " ++ f.message)
      Sweep.count fun m now => m.recordError now "scan.unreadable"
      return { t with unreadable := path :: t.unreadable }
    else Sweep.fail f

/-- The store of a finished scan. -/
def Tally.store (t : Tally) : Store :=
  Store.ofCounts (t.counts.reverse.map fun (p, n) => (p, n))

/-- The summary of a finished scan. -/
def Tally.summary (t : Tally) (root : String) : ScanSummary :=
  { root, filesScanned := t.scanned, filesWithCalls := t.counts.length
    totalCalls := t.counts.foldr (fun e n => e.2 + n) 0, unreadable := t.unreadable.reverse }

/-- Scans the files below a root, which has to be a directory. -/
def run (root : String) (settings : CleanerSettings) (progress : Nat → Sweep Unit) :
    Sweep (Store × ScanSummary) := do
  let root := (← Sweep.resolve (Path.ofString root)).text
  if !(← Sweep.isDirectory root) then Sweep.fail (.noDirectory root)
  let _ ← Sweep.metrics
  let files ← sources root settings.endings settings.ignored
  let t ← files.foldlM (scanFile settings.methods progress) {}
  let summary := t.summary root
  Sweep.log logger Log.info
    ("Scanned " ++ Text.ofNat summary.filesScanned ++ " file(s) under " ++ root ++ ": " ++
      Text.ofNat summary.totalCalls ++ " console call(s) in " ++
      Text.ofNat summary.filesWithCalls ++ " file(s)")
  return (t.store, summary)

end Scan

end ConsoleSweep
