/-
  Path texts, without a look at any file.

  The functions on strings keep to the text they are given. `Path` is the normal
  form of a path: its root and its named parts, with empty parts and single points
  dropped. Two leading slashes are a root of their own; three or more are one.
-/
import ConsoleSweep.Text.Basic

namespace ConsoleSweep

namespace Path

open ConsoleSweep.Text

/-- Whether the path starts at the root. -/
def isAbsolute (path : String) : Bool :=
  path.toList.head? == some '/'

/-- The slashes that a path starts with: none, one, or two if there are exactly two. -/
def rootOf (path : String) : String :=
  match path.toList with
  | '/' :: '/' :: '/' :: _ => "/"
  | '/' :: '/' :: _ => "//"
  | '/' :: _ => "/"
  | _ => ""

/-- `name` below the directory `dir`; an absolute name stands for itself. -/
def join (dir name : String) : String :=
  if isAbsolute name then name
  else if dir = "" || dir.toList.getLast? = some '/' then dir ++ name
  else dir ++ "/" ++ name

/-- One step of `normalize`: the named parts so far, last one first. -/
def normalStep (rooted : Bool) (done : List String) (part : String) : List String :=
  if part = "" || part = "." then done
  else if part ≠ ".." then part :: done
  else
    match done with
    | [] => if rooted then [] else [".."]
    | last :: rest => if last = ".." then ".." :: done else rest

/-- The path without empty parts, single points and steps back. -/
def normalize (path : String) : String :=
  let root := rootOf path
  let parts := ((splitAt '/' path).foldl (normalStep (root ≠ "")) []).reverse
  if root = "" && parts.isEmpty then "." else root ++ "/".intercalate parts

/-- The normal form of a path that starts at the directory `cwd`. -/
def absolute (cwd path : String) : String :=
  normalize (if isAbsolute path then path else join cwd path)

/-- What follows the last slash. -/
def baseName (path : String) : String :=
  (splitAt '/' path).getLast?.getD ""

/-- The ending of a file name from its last point on; points at its start count for nothing. -/
def suffixOf (path : String) : String :=
  let name := (baseName path).toList
  let body := name.dropWhile (· = '.')
  if body.contains '.' then String.ofList ('.' :: ((pieces '.' body).getLast?.getD [])) else ""

/-- The file name without its ending. -/
def stemOf (path : String) : String :=
  let name := baseName path
  String.ofList (name.toList.take (name.length - (suffixOf path).length))

/-- The named parts of a path. -/
def namedParts (path : String) : List String :=
  (splitAt '/' path).filter (· ≠ "")

/-- How many parts two lists have in common at their start. -/
def shared : List String → List String → Nat
  | a :: as, b :: bs => if a = b then shared as bs + 1 else 0
  | _, _ => 0

/-- The way from the directory `start` to `path`; the empty path has none. -/
def relative? (cwd path start : String) : Option String :=
  if path = "" then none
  else
    let origin := namedParts (absolute cwd start)
    let goal := namedParts (absolute cwd path)
    let n := shared origin goal
    let steps := List.replicate (origin.length - n) ".." ++ goal.drop n
    some (if steps.isEmpty then "." else "/".intercalate steps)

end Path

/-- A path in normal form. -/
structure Path where
  root : String
  parts : List String
  deriving DecidableEq, Repr

namespace Path

/-- The normal form of a path text. Steps back stay. -/
def ofString (s : String) : Path :=
  ⟨rootOf s, (Text.splitAt '/' s).filter fun p => p ≠ "" && p ≠ "."⟩

/-- The text of a path; the empty path is a point. -/
def text (p : Path) : String :=
  if p.root = "" && p.parts.isEmpty then "." else p.root ++ "/".intercalate p.parts

/-- Whether the path starts at a root. -/
def isRooted (p : Path) : Bool :=
  p.root ≠ ""

/-- The path `q` seen from `p`. -/
def append (p q : Path) : Path :=
  if q.isRooted then q else ⟨p.root, p.parts ++ q.parts⟩

/-- An entry of the directory `p`. -/
def child (p : Path) (name : String) : Path :=
  p.append (ofString name)

/-- The directory that holds `p`; a root and the empty path hold themselves. -/
def parent (p : Path) : Path :=
  ⟨p.root, p.parts.dropLast⟩

end Path

end ConsoleSweep
