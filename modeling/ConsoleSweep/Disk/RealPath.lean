/-
  The real path of a path: the place it stands for once every link is followed.

  It always exists, also where a name on the way stands for nothing or links lead
  in a circle. The way is kept as a trail, which starts at the root or at the
  working directory; the working directory itself is asked for only at the end, and
  only if the trail has not come to the root. A link is known by the trail that
  leads to it, so a link that is met by two trails counts as two.
-/
import ConsoleSweep.Disk

namespace ConsoleSweep.Disk

/-- A way without links: from a root, or a number of levels up from the working directory, and then
down through some names. -/
structure Trail where
  /-- The slashes that the way starts with. -/
  root : String
  ups : Nat
  names : List String
  deriving DecidableEq, Repr

namespace Trail

/-- A root, of one slash or of two. -/
def atRoot (slashes : String) : Trail := ⟨slashes, 0, []⟩

/-- The working directory. -/
def here : Trail := ⟨"", 0, []⟩

/-- Whether the trail starts at a root. -/
def isRooted (t : Trail) : Bool :=
  t.root ≠ ""

/-- The start of a path text. -/
def startOf (path : String) (otherwise : Trail) : Trail :=
  if Path.isAbsolute path then atRoot "/" else otherwise

/-- A step by a name, or by one of the signs for the same directory and the one above. -/
def step (t : Trail) (name : String) : Trail :=
  if name = "" || name = "." then t
  else if name ≠ ".." then { t with names := t.names ++ [name] }
  else if !t.names.isEmpty then { t with names := t.names.dropLast }
  else if t.isRooted then t
  else { t with ups := t.ups + 1 }

/-- The text of a trail. -/
def text (t : Trail) : String :=
  t.root ++ "/".intercalate (List.replicate t.ups ".." ++ t.names)

/-- The path that a trail leads to by its names alone; none if it starts at a working directory
that is gone. -/
def path? (t : Trail) (cwd : Anchor) : Option String :=
  if t.isRooted then some t.text
  else cwd.place?.map fun p => Place.text (p.take (p.length - t.ups) ++ t.names)

end Trail

/-- What is left to do on the way to a real path: a name to go through, or the end of a link. -/
inductive Step where
  | name (s : String)
  | leave (link : Trail)
  deriving DecidableEq, Repr

/-- The steps of a path text. -/
def stepsOf (path : String) : List Step :=
  (Text.splitAt '/' path).map .name

/-- The names that the steps go on with, up to the end of a link. -/
def namesNext : List Step → List String
  | .name s :: rest => s :: namesNext rest
  | _ => []

/-- The slashes that the text of the steps begins with. -/
def rootNext (todo : List Step) : String :=
  Path.rootOf ("/".intercalate (namesNext todo))

/-- The steps as text alone. Behind the end of a link, and at the start, the text is joined to what
was read before: if `joins` is set and the text begins with a slash, it starts at a root. -/
def lexicalEnd (joins : Bool) (t : Trail) : List Step → Trail
  | [] => t
  | .leave _ :: rest => lexicalEnd true t rest
  | .name s :: rest =>
    let root := rootNext (.name s :: rest)
    if joins && root ≠ "" then lexicalEnd false (Trail.atRoot root) rest
    else lexicalEnd false (t.step s) rest

/-- The target of the link that a trail leads to. -/
def linkTarget? (d : Disk) (t : Trail) : Option String :=
  match d.locate false t.text with
  | .ok (.node _ (.link target)) => some target
  | _ => none

/-- Goes through the steps from the end of a trail. `links` bounds the links that are followed;
`met` has the links met before, each with its end if it was left again. A name that is no link, or
stands for nothing, is gone through as it is. A link that is met while it is being followed stops
the walk, and the rest is taken as text. -/
def realFrom (d : Disk) (links : Nat) (met : List (Trail × Option Trail)) (t : Trail)
    (todo : List Step) : Trail :=
  match todo with
  | [] => t
  | .leave link :: rest => realFrom d links ((link, some t) :: met) t rest
  | .name s :: rest =>
    let next := t.step s
    if s = "" || s = "." || s = ".." then realFrom d links met next rest
    else
      match d.linkTarget? next, met.lookup next with
      | none, _ => realFrom d links met next rest
      | some _, some (some goal) => realFrom d links met goal rest
      | some _, some none => lexicalEnd true next rest
      | some target, none =>
        match links with
        | 0 => lexicalEnd true next rest
        | links + 1 =>
          realFrom d links ((next, none) :: met) (Trail.startOf target t)
            (stepsOf target ++ .leave next :: rest)
termination_by (links, todo.length)

/-- Whether a link stands at a place. -/
def isLink (d : Disk) (p : Place) : Bool :=
  match d.node? p with
  | some (.link _) => true
  | _ => false

/-- The places of all links. -/
def linkPlaces (d : Disk) : List Place :=
  (d.nodes.map (·.1)).filter d.isLink

/-- More links than are met by trails that fit into a path. -/
def trailLimit (d : Disk) : Nat :=
  (d.linkPlaces.length + 1) * pathLimit

/-- The path that a path stands for once every link is followed; none if it starts at a working
directory that is gone. -/
def realPath? (d : Disk) (path : String) : Option String :=
  (d.realFrom d.trailLimit [] (Trail.startOf path Trail.here) (stepsOf path)).path? d.cwd

end ConsoleSweep.Disk
