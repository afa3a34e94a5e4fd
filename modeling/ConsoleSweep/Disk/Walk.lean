/-
  The walk through the directories below a root.

  Links to directories are followed, and every real directory is entered at most
  once, under the path by which it is met first. `walkFrom` keeps the directories
  that have not been entered yet; the list gets shorter with each visit, so links in
  a circle do no harm.
-/
import ConsoleSweep.Disk

namespace ConsoleSweep.Disk

/-- A directory on the walk: the path it is shown under, and where it really is. -/
structure Visit where
  shown : String
  place : Place
  deriving DecidableEq, Repr

/-- The places of the directories. -/
def dirPlaces (d : Disk) : List Place :=
  [] :: d.nodes.filterMap fun (p, n) => if n = .dir then some p else none

/-- The names in a directory, in the order of their code points. -/
def names (d : Disk) (dir : Place) : List String :=
  ((d.entries dir).map (·.1)).mergeSort fun a b => a ≤ b

/-- The directory that an entry leads to. A link is followed from the path under which it is
shown, which may already lead through others. -/
def entryDir? (d : Disk) (v : Visit) (name : String) : Option Place :=
  match d.node? (v.place ++ [name]) with
  | some .dir => some (v.place ++ [name])
  | some (.link _) =>
    match d.locate true (Path.join v.shown name) with
    | .ok (.node p .dir) => some p
    | _ => none
  | _ => none

/-- The directories that are entered from a directory. -/
def nextVisits (d : Disk) (ignored : List String) (v : Visit) : List Visit :=
  ((d.names v.place).filter fun name => !ignored.contains name).filterMap fun name =>
    (d.entryDir? v name).map fun p => ⟨Path.join v.shown name, p⟩

/-- The directories that are entered, in their order: a directory comes before those below it.
`unseen` has the directories that were not entered so far, `todo` those to look at next. -/
def walkFrom (d : Disk) (ignored : List String) (unseen : List Place) (todo : List Visit) :
    List Visit :=
  match todo with
  | [] => []
  | v :: rest =>
    if _h : v.place ∈ unseen then
      v :: walkFrom d ignored (unseen.erase v.place) (d.nextVisits ignored v ++ rest)
    else walkFrom d ignored unseen rest
termination_by (unseen.length, todo.length)
decreasing_by
  · exact Prod.Lex.left _ _ (by
      rw [List.length_erase_of_mem _h]
      have := List.length_pos_of_mem _h
      omega)
  · exact Prod.Lex.right _ (by simp)

/-- The directories at and below a root. -/
def walk (d : Disk) (ignored : List String) (root : String) : Except Errno (List Visit) :=
  match d.locate true root with
  | .ok (.node p .dir) => .ok (d.walkFrom ignored d.dirPlaces [⟨root, p⟩])
  | .ok (.node _ _) => .error .notDirectory
  | .ok (.gone _) => .ok []
  | .ok (.vacant ..) => .error .missing
  | .error e => .error e

/-- Whether an entry is looked at as a file: it is no directory, its name is not ignored and its
ending is asked for. -/
def isSource (d : Disk) (endings ignored : List String) (v : Visit) (name : String) : Bool :=
  (d.entryDir? v name).isNone && !ignored.contains name && endings.contains (Path.suffixOf name)

/-- The files to look at in a directory. -/
def sourcesIn (d : Disk) (endings ignored : List String) (v : Visit) : List String :=
  ((d.names v.place).filter (d.isSource endings ignored v)).map (Path.join v.shown)

/-- The files to look at below a root. -/
def sources (d : Disk) (endings ignored : List String) (root : String) :
    Except Errno (List String) :=
  (d.walk ignored root).map fun visits => visits.flatMap (d.sourcesIn endings ignored)

end ConsoleSweep.Disk
