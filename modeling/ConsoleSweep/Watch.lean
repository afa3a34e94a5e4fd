/-
  Watching: the tree is looked at again and again, and the store is kept current.

  A look compares when the files were last written with the look before. A file
  that is gone leaves the store at once. New and changed files are awaited: once
  nothing more has changed for a while, everything is scanned again.
-/
import ConsoleSweep.Scan

namespace ConsoleSweep

/-- A watch over a tree: what was there at the last look, and since when changes are awaited. -/
structure Watcher where
  root : String
  settings : CleanerSettings
  /-- How long changes are awaited, in seconds; none if what was given is no number. -/
  debounce : Option Number
  seen : List (String × Stamp)
  pendingSince : Option Number := none

/-- What a look has found. -/
structure Tick where
  created : List String
  modified : List String
  deleted : List String
  rescanned : Bool := false
  deriving DecidableEq, Repr

/-- Whether anything has happened. -/
def Tick.isChange (t : Tick) : Bool :=
  !t.created.isEmpty || !t.modified.isEmpty || !t.deleted.isEmpty || t.rescanned

namespace Watcher

/-- The logger of this part. -/
def logger : String := "console_cleaner.core.watcher"

/-- When a file was last written. -/
def stampOf? (d : Disk) (path : String) : Option Stamp :=
  match d.stat path with
  | .ok (.file _ stamp) => some stamp
  | _ => none

/-- When each file below a root was last written. -/
def snapshot (root : String) (settings : CleanerSettings) : Sweep (List (String × Stamp)) := do
  let files ← Scan.sources root settings.endings settings.ignored
  let disk := (← Sweep.world).disk
  return files.filterMap fun p => (stampOf? disk p).map fun s => (p, s)

/-- Starts to watch a tree. -/
def new (root : String) (settings : CleanerSettings) (debounce : Option Number) :
    Sweep Watcher := do
  let root := (← Sweep.resolve (Path.ofString root)).text
  return { root, settings, debounce, seen := ← snapshot root settings }

/-- Paths in the order of their code points. -/
def sorted (paths : List String) : List String :=
  paths.mergeSort fun a b => a ≤ b

/-- The differences between two looks. -/
def compare (before after : List (String × Stamp)) : Tick :=
  { created := sorted ((after.filter fun e => (before.lookup e.1).isNone).map (·.1))
    modified := sorted ((after.filter fun e =>
      match before.lookup e.1 with
      | some s => s ≠ e.2
      | none => false).map (·.1))
    deleted := sorted ((before.filter fun e => (after.lookup e.1).isNone).map (·.1)) }

/-- Drops the files that are gone from the store. -/
def dropDeleted (store : Store) : List String → Sweep Store
  | [] => return store
  | path :: rest => do
    if store.contains path then
      Sweep.log logger Log.info ("Dropped deleted file from results: " ++ path)
    dropDeleted (store.remove path) rest

/-- Scans everything again; none if the root is gone. -/
def rescan (w : Watcher) : Sweep (Option Store) := do
  match ← Sweep.attempt (Scan.run w.root w.settings fun _ => pure ()) with
  | .ok (store, _) => return some store
  | .error f =>
    if f.isMissing then
      Sweep.log logger Log.warning ("Rescan skipped: " ++ f.message)
      return none
    else Sweep.fail f

/-- The watch after the differences of a look were noted at a time. -/
def note (w : Watcher) (seen : List (String × Stamp)) (t : Tick) (now : Number) : Watcher :=
  { w with
    seen
    pendingSince := if t.created.isEmpty && t.modified.isEmpty then w.pendingSince else some now }

/-- Whether changes have been awaited for long enough. -/
def isDue (w : Watcher) (now : Number) : Except Fault Bool :=
  match w.pendingSince with
  | none => .ok false
  | some since => do
    let waited ← now.minus since
    match w.debounce with
    | some debounce => return debounce.le waited
    | none => .error .badType

/-- Takes a look at the tree. `onUpdate` is told the store if something was dropped from it or it
was scanned anew. What was noted before a fault is kept. -/
def poll (w : Watcher) (store : Store) (now : Number) (onUpdate : Store → Sweep Unit) :
    Sweep (Watcher × Store × Except Fault Tick) := do
  let seen ← snapshot w.root w.settings
  let t := compare w.seen seen
  let store ← dropDeleted store t.deleted
  let w := w.note seen t now
  match w.isDue now with
  | .error f => return (w, store, .error f)
  | .ok due =>
    let w := if due then { w with pendingSince := none } else w
    match ← Sweep.attempt (if due then w.rescan else pure none) with
    | .error f => return (w, store, .error f)
    | .ok found =>
      let store := found.getD store
      let t := { t with rescanned := found.isSome }
      if t.deleted.isEmpty && !t.rescanned then return (w, store, .ok t)
      match ← Sweep.attempt (onUpdate store) with
      | .ok _ => return (w, store, .ok t)
      | .error f => return (w, store, .error f)

/-- A look that does not fail: a fault is only mentioned in the log. -/
def tick (w : Watcher) (store : Store) (now : Number) (onUpdate : Store → Sweep Unit) :
    Sweep (Watcher × Store) := do
  let (w, store, outcome) ← w.poll store now onUpdate
  match outcome with
  | .ok _ => pure ()
  | .error _ => Sweep.log logger Log.error "Watcher poll failed"
  return (w, store)

end Watcher

end ConsoleSweep
