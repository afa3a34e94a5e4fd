/-
  A tree of files, directories and symbolic links, with a working directory.

  A place in the tree is the list of the names that lead to it from the root.
  `locate` follows a path text through the links; at most `linkLimit` links are
  followed on the way. The working directory and the open files are anchored: they
  stay the same when they are moved, and are not mistaken for something new under
  their name when they are removed.

  Writing a file can be refused, and so can making something in a directory; a device
  takes what is written and keeps nothing (`Medium`). Left out are refusals to read a
  file and to list or go through a directory, a second name for a file other than by a
  link that is followed, devices that give anything, pipes, and a medium that runs full
  in the middle of a write. What the program makes it may write again.
-/
import ConsoleSweep.Path
import ConsoleSweep.Text.Utf8

namespace ConsoleSweep

open ConsoleSweep.Text (Bytes)

/-- Why an operation on files is refused. -/
inductive Errno where
  | missing
  | exists
  | notDirectory
  | isDirectory
  | nameTooLong
  | tooManyLinks
  | notEmpty
  | invalid
  | denied
  deriving DecidableEq, Repr

/-- The number of the error. -/
def Errno.code : Errno → Nat
  | .missing => 2
  | .exists => 17
  | .notDirectory => 20
  | .isDirectory => 21
  | .nameTooLong => 36
  | .tooManyLinks => 40
  | .notEmpty => 39
  | .invalid => 22
  | .denied => 13

/-- The wording of the error. -/
def Errno.text : Errno → String
  | .missing => "No such file or directory"
  | .exists => "File exists"
  | .notDirectory => "Not a directory"
  | .isDirectory => "Is a directory"
  | .nameTooLong => "File name too long"
  | .tooManyLinks => "Too many levels of symbolic links"
  | .notEmpty => "Directory not empty"
  | .invalid => "Invalid argument"
  | .denied => "Permission denied"

/-- When a file was last written: at a time in nanoseconds, or by a write of this program, which
is a moment of its own. -/
inductive Stamp where
  | at (nanoseconds : Int)
  | write (serial : Nat)
  deriving DecidableEq, Repr

/-- What stands at a place. -/
inductive Node where
  | file (bytes : Bytes) (stamp : Stamp)
  | dir
  | link (target : String)
  deriving DecidableEq, Repr

/-- A place: the names that lead to it from the root. -/
abbrev Place := List String

/-- The text of a place. -/
def Place.text (p : Place) : String :=
  "/" ++ "/".intercalate p

/-- A place that is held on to. It moves along with the directories above it. When it is removed it
is still `gone` levels below `base`, which has stayed. -/
structure Anchor where
  base : Place
  gone : Nat := 0
  deriving DecidableEq, Repr

namespace Anchor

/-- The place, as long as it is in the tree. -/
def place? (a : Anchor) : Option Place :=
  if a.gone = 0 then some a.base else none

/-- The directory above. -/
def up (a : Anchor) : Anchor :=
  if a.gone = 0 then ⟨a.base.dropLast, 0⟩ else ⟨a.base, a.gone - 1⟩

/-- The anchor after all at and below a place was removed. -/
def afterRemoval (p : Place) (a : Anchor) : Anchor :=
  if p.isPrefixOf a.base then ⟨p.dropLast, a.gone + (a.base.length - p.length) + 1⟩ else a

/-- The anchor after all at and below the place `p` was moved to `q`. -/
def afterMove (p q : Place) (a : Anchor) : Anchor :=
  if p.isPrefixOf a.base then { a with base := q ++ a.base.drop p.length } else a

end Anchor

theorem Medium.high_of_none : ∀ c ∈ ([] : List Char), 0x80 ≤ c.val :=
  List.forall_mem_nil _

/-- What the files are kept on. -/
structure Medium where
  /-- Files that may not be written, and directories in which nothing may be made. -/
  locked : List Place := []
  /-- Devices: files with nothing in them, which stay so whatever is written to them. -/
  sinks : List Place := []
  /-- The characters that stand for the bytes of names that are no UTF-8. No text can be written with
  them. -/
  strays : List Char := []
  strays_high : ∀ c ∈ strays, 0x80 ≤ c.val := by exact Medium.high_of_none
  deriving Repr

namespace Medium

/-- Whether a text can be written into a file. -/
def canHold (m : Medium) (text : List Char) : Bool :=
  text.all fun c => !m.strays.contains c

/-- The medium after all at and below a place was removed. -/
def afterRemoval (p : Place) (m : Medium) : Medium :=
  { m with
    locked := m.locked.filter fun q => !p.isPrefixOf q
    sinks := m.sinks.filter fun q => !p.isPrefixOf q }

/-- The medium after all at and below the place `p` was moved to `q`. -/
def afterMove (p q : Place) (m : Medium) : Medium :=
  let moved (r : Place) : Place := if p.isPrefixOf r then q ++ r.drop p.length else r
  { m with locked := m.locked.map moved, sinks := m.sinks.map moved }

end Medium

/-- The files. `nodes` has every place but the root, `cwd` is the working directory, `held` are the
open files in the order in which they were opened, and `writes` counts the writes so far. -/
structure Disk where
  nodes : List (Place × Node)
  cwd : Anchor
  held : List Anchor
  writes : Nat
  medium : Medium
  deriving Repr

namespace Disk

/-- Whether a place is locked. -/
def refuses (d : Disk) (p : Place) : Bool :=
  d.medium.locked.contains p

/-- Whether something new may be made in a directory. -/
def mayMake (d : Disk) (dir : Place) (name : String) : Bool :=
  !d.refuses dir && !d.refuses (dir ++ [name])

/-- What stands at a place. -/
def node? (d : Disk) (p : Place) : Option Node :=
  if p = [] then some .dir else d.nodes.lookup p

/-- Puts a node at a place. -/
def setNode (d : Disk) (p : Place) (n : Node) : Disk :=
  { d with nodes := if (d.nodes.lookup p).isSome
      then d.nodes.map fun e => if e.1 = p then (p, n) else e
      else d.nodes ++ [(p, n)] }

/-- The entries of a directory. -/
def entries (d : Disk) (dir : Place) : List (String × Node) :=
  d.nodes.filterMap fun (p, n) =>
    match p.getLast? with
    | some name => if p.dropLast = dir then some (name, n) else none
    | none => none

/-! ## Following paths -/

/-- How many links a path may lead through. -/
def linkLimit : Nat := 40

/-- The longest name of a file, in bytes. -/
def nameLimit : Nat := 255

/-- The longest path, in bytes. -/
def pathLimit : Nat := 4095

/-- Where a path leads: to a node, to a name that is free in a directory, or to a directory that is
no longer in the tree. -/
inductive Found where
  | node (place : Place) (node : Node)
  | vacant (dir : Place) (name : String)
  | gone (dir : Anchor)
  deriving DecidableEq, Repr

/-- Follows the names in `todo` from the directory `dir`. A link at the end is followed if
`follow` is set. -/
def locateFrom (d : Disk) (follow : Bool) (links : Nat) (dir : Anchor) (todo : List String) :
    Except Errno Found :=
  match todo with
  | [] => .ok (if dir.gone = 0 then .node dir.base .dir else .gone dir)
  | name :: rest =>
    if name = "" || name = "." then locateFrom d follow links dir rest
    else if name = ".." then locateFrom d follow links dir.up rest
    else if dir.gone ≠ 0 then .error .missing
    else if nameLimit < Text.byteLength name then .error .nameTooLong
    else
      let here := dir.base ++ [name]
      match d.node? here with
      | none => if rest = [] then .ok (.vacant dir.base name) else .error .missing
      | some .dir => locateFrom d follow links ⟨here, 0⟩ rest
      | some (.file bytes stamp) =>
        if rest = [] then .ok (.node here (.file bytes stamp)) else .error .notDirectory
      | some (.link target) =>
        if rest = [] && !follow then .ok (.node here (.link target))
        else if target = "" then .error .missing
        else
          match links with
          | 0 => .error .tooManyLinks
          | links + 1 =>
            locateFrom d follow links (if Path.isAbsolute target then ⟨[], 0⟩ else dir)
              (Text.splitAt '/' target ++ rest)
termination_by (links, todo.length)

/-- Follows a path text. -/
def locate (d : Disk) (follow : Bool) (path : String) : Except Errno Found :=
  if path = "" then .error .missing
  else if pathLimit < Text.byteLength path then .error .nameTooLong
  else
    locateFrom d follow linkLimit (if Path.isAbsolute path then ⟨[], 0⟩ else d.cwd)
      (Text.splitAt '/' path)

/-- The node at the end of a path, links followed. -/
def stat (d : Disk) (path : String) : Except Errno Node :=
  match d.locate true path with
  | .ok (.node _ n) => .ok n
  | .ok (.gone _) => .ok .dir
  | .ok (.vacant ..) => .error .missing
  | .error e => .error e

/-- The tree with another working directory. -/
def enter (d : Disk) (path : String) : Except Errno Disk :=
  match d.locate true path with
  | .ok (.node p .dir) => .ok { d with cwd := ⟨p, 0⟩ }
  | .ok (.gone dir) => .ok { d with cwd := dir }
  | .ok (.node _ _) => .error .notDirectory
  | .ok (.vacant ..) => .error .missing
  | .error e => .error e

/-- Whether a path leads to a directory. -/
def isDir (d : Disk) (path : String) : Bool :=
  match d.stat path with
  | .ok .dir => true
  | _ => false

/-- Whether a path leads to a file. -/
def isFile (d : Disk) (path : String) : Bool :=
  match d.stat path with
  | .ok (.file ..) => true
  | _ => false

end Disk

end ConsoleSweep
