/-
  Reading, writing and making files and directories. An operation answers with the
  new tree, or with the reason why it cannot be done.
-/
import ConsoleSweep.Disk

namespace ConsoleSweep.Disk

open ConsoleSweep.Text (Bytes)

/-- The contents of a file. -/
def read (d : Disk) (path : String) : Except Errno Bytes :=
  match d.stat path with
  | .ok (.file bytes _) => .ok bytes
  | .ok _ => .error .isDirectory
  | .error e => .error e

/-- Puts contents into the file at a place, as a new write. -/
def putFile (d : Disk) (p : Place) (bytes : Bytes) : Disk :=
  { d.setNode p (.file bytes (.write d.writes)) with writes := d.writes + 1 }

/-- Replaces the contents of the file at a place; a device stays as it is. -/
def replaceFile (d : Disk) (p : Place) (old new : Bytes) : Disk :=
  if old.isEmpty && d.medium.sinks.contains p then d else d.putFile p new

/-- Writes a file; `change` makes the new contents from the old ones, or from nothing if there is
no file yet. -/
def update (d : Disk) (path : String) (change : Bytes → Bytes) : Except Errno Disk :=
  match d.locate true path with
  | .ok (.node p (.file bytes _)) =>
    if d.refuses p then .error .denied else .ok (d.replaceFile p bytes (change bytes))
  | .ok (.node _ _) | .ok (.gone _) => .error .isDirectory
  | .ok (.vacant dir name) =>
    if d.mayMake dir name then .ok (d.putFile (dir ++ [name]) (change [])) else .error .denied
  | .error e => .error e

/-- Writes a file anew. -/
def write (d : Disk) (path : String) (bytes : Bytes) : Except Errno Disk :=
  d.update path fun _ => bytes

/-- Writes at the end of a file. -/
def append (d : Disk) (path : String) (bytes : Bytes) : Except Errno Disk :=
  d.update path (· ++ bytes)

/-- Makes a directory. -/
def makeDir (d : Disk) (path : String) : Except Errno Disk :=
  match d.locate false path with
  | .ok (.vacant dir name) =>
    if d.mayMake dir name then .ok (d.setNode (dir ++ [name]) .dir) else .error .denied
  | .ok (.node ..) | .ok (.gone _) => .error .exists
  | .error e => .error e

/-- Makes a directory and, as far as they are missing, those above it. A directory that is there
already is fine. An error names the path that it is about. -/
def makeDirs (d : Disk) (root : String) (parts : List String) : Disk × Option (Errno × String) :=
  let here := (Path.mk root parts).text
  let settled (d : Disk) (e : Errno) : Disk × Option (Errno × String) :=
    if d.isDir here then (d, none) else (d, some (e, here))
  match d.makeDir here with
  | .ok d => (d, none)
  | .error .missing =>
    if parts = [] then (d, some (.missing, here))
    else
      match makeDirs d root parts.dropLast with
      | (d, some e) => (d, some e)
      | (d, none) =>
        match d.makeDir here with
        | .ok d => (d, none)
        | .error .missing => (d, some (.missing, here))
        | .error e => settled d e
  | .error e => settled d e
termination_by parts.length
decreasing_by
  simp_wf
  cases parts with
  | nil => contradiction
  | cons a as => simp

/-! ## Open files -/

/-- Opens a file to write at its end, and makes it if there is none. The answer has the number of
the open file. -/
def hold (d : Disk) (path : String) : Except Errno (Disk × Nat) :=
  let keep (d : Disk) (p : Place) : Disk × Nat :=
    ({ d with held := d.held ++ [⟨p, 0⟩] }, d.held.length)
  match d.locate true path with
  | .ok (.node p (.file ..)) => if d.refuses p then .error .denied else .ok (keep d p)
  | .ok (.node _ _) | .ok (.gone _) => .error .isDirectory
  | .ok (.vacant dir name) =>
    if d.mayMake dir name then .ok (keep (d.putFile (dir ++ [name]) []) (dir ++ [name]))
    else .error .denied
  | .error e => .error e

/-- Writes at the end of an open file. If it was removed, nobody can read what is written. -/
def appendHeld (d : Disk) (number : Nat) (bytes : Bytes) : Disk :=
  match d.held[number]?.bind Anchor.place? with
  | none => d
  | some p =>
    match d.node? p with
    | some (.file old _) => d.replaceFile p old (old ++ bytes)
    | _ => d

/-! ## Changes from outside -/

/-- Removes what stands at a place, with all below it. -/
def removeTree (d : Disk) (p : Place) : Disk :=
  { d with
    nodes := d.nodes.filter fun e => !p.isPrefixOf e.1
    cwd := d.cwd.afterRemoval p
    held := d.held.map (Anchor.afterRemoval p)
    medium := d.medium.afterRemoval p }

/-- Makes the directories above a path. An error names the path that it is about. -/
def plantParents (d : Disk) (path : String) : Disk × Option (Errno × String) :=
  d.makeDirs (Path.ofString path).root (Path.ofString path).parts.dropLast

/-- Puts a file at a path, with the directories above it. -/
def plantFile (d : Disk) (path : String) (bytes : Bytes) (stamp : Stamp) :
    Disk × Option (Errno × String) :=
  match d.plantParents path with
  | (d, some e) => (d, some e)
  | (d, none) =>
    match d.locate true path with
    | .ok (.node p (.file ..)) => (d.setNode p (.file bytes stamp), none)
    | .ok (.vacant dir name) => (d.setNode (dir ++ [name]) (.file bytes stamp), none)
    | .ok _ => (d, some (.isDirectory, path))
    | .error e => (d, some (e, path))

/-- Makes a directory, with the directories above it. -/
def plantDir (d : Disk) (path : String) : Disk × Option (Errno × String) :=
  d.makeDirs (Path.ofString path).root (Path.ofString path).parts

/-- Puts a link at a path that is free. -/
def plantLink (d : Disk) (path target : String) : Except Errno Disk :=
  match d.locate false path with
  | .ok (.vacant dir name) => .ok (d.setNode (dir ++ [name]) (.link target))
  | .ok _ => .error .exists
  | .error e => .error e

/-- Deletes what a path names, with all below it; a link is deleted itself. -/
def delete (d : Disk) (path : String) : Except Errno Disk :=
  match d.locate false path with
  | .ok (.node p _) => .ok (d.removeTree p)
  | .ok _ => .error .missing
  | .error e => .error e

/-- Moves all at and below the place `p` to the place `q`. -/
def moveTree (d : Disk) (p q : Place) : Disk :=
  let d := d.removeTree q
  { d with
    nodes := d.nodes.map fun e =>
      if p.isPrefixOf e.1 then (q ++ e.1.drop p.length, e.2) else e
    cwd := d.cwd.afterMove p q
    held := d.held.map (Anchor.afterMove p q)
    medium := d.medium.afterMove p q }

/-- Moves what a path names, with all below it. It may take the place of a file, or of a directory
with nothing in it. -/
def move (d : Disk) (source goal : String) : Except Errno Disk :=
  match d.locate false source, d.locate false goal with
  | .error e, _ => .error e
  | _, .error e => .error e
  | .ok (.node p n), .ok (.vacant dir name) =>
    if n = .dir && p.isPrefixOf dir then .error .invalid else .ok (d.moveTree p (dir ++ [name]))
  | .ok (.node p n), .ok (.node q m) =>
    if p = q then .ok d
    else if p.isPrefixOf q then .error .invalid
    else if q.isPrefixOf p then .error .notEmpty
    else if n = .dir && m ≠ .dir then .error .notDirectory
    else if n ≠ .dir && m = .dir then .error .isDirectory
    else if m = .dir && !(d.entries q).isEmpty then .error .notEmpty
    else .ok (d.moveTree p q)
  | _, _ => .error .missing

/-- Sets when a file was last written. -/
def touch (d : Disk) (path : String) (stamp : Stamp) : Except Errno Disk :=
  match d.locate true path with
  | .ok (.node p (.file bytes _)) => .ok (d.setNode p (.file bytes stamp))
  | .ok (.vacant ..) => .error .missing
  | .ok _ => .ok d
  | .error e => .error e

/-- All files and links below a place, with their paths from there. -/
def listing (d : Disk) (p : Place) : List (String × Node) :=
  d.nodes.filterMap fun (q, n) =>
    match n with
    | .dir => none
    | n => if p.isPrefixOf q && p ≠ q then some ("/".intercalate (q.drop p.length), n) else none

end ConsoleSweep.Disk
