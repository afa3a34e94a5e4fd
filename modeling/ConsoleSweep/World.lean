/-
  The surroundings of a run: files, environment, clock, terminal, log and counters.

  `Sweep` is the type of a piece of work in these surroundings. It may be given up
  with a fault; what it has done until then stays done.

  The terminal takes any character; one that reads less than Unicode, or a name that is
  no UTF-8 printed to it, would be a fault of its own. The clock stands still unless
  something outside moves it.
-/
import ConsoleSweep.Disk.Files
import ConsoleSweep.Disk.RealPath
import ConsoleSweep.Log
import ConsoleSweep.Metrics

namespace ConsoleSweep

open ConsoleSweep.Text (Bytes)

/-- The surroundings of a run. -/
structure World where
  disk : Disk
  env : List (String × String)
  /-- The home directories of the users that are known by name. -/
  homes : List (String × String)
  /-- The time of day, in seconds. -/
  now : Number
  /-- The time of day that log records are stamped with. -/
  logTime : Number
  logging : Log.Setup
  /-- Every record that was logged, last one first. -/
  journal : List Log.Record
  /-- The counters, once they are in use. -/
  metrics : Option Metrics
  /-- What was printed, and what was printed as a diagnostic. -/
  out : String
  err : String
  /-- What can still be read from the keyboard. -/
  input : List Char

/-- A piece of work. -/
abbrev Sweep (α : Type) := ExceptT Fault (StateM World) α

namespace Sweep

/-- Gives up. -/
def fail {α : Type} (f : Fault) : Sweep α :=
  throw f

/-- The value, or the fault, of a computation without surroundings. -/
def ofExcept {α : Type} : Except Fault α → Sweep α
  | .ok a => pure a
  | .error f => throw f

/-- Does the work and answers with its outcome, fault or not. -/
def attempt {α : Type} (work : Sweep α) : Sweep (Except Fault α) :=
  ExceptT.mk (return .ok (← work.run))

/-- Looks at the surroundings. -/
def world : Sweep World :=
  get

/-! ## Environment and terminal -/

/-- The value of an environment variable. -/
def lookupVar (name : String) : Sweep (Option String) :=
  return (← world).env.lookup name

/-- Sets an environment variable. -/
def setVar (name value : String) : Sweep Unit := do
  if name = "" && !value.toList.contains '\x00' then fail .emptyName
  if name.toList.contains '\x00' || value.toList.contains '\x00' || name.toList.contains '=' then
    fail (.badValue "not allowed in the environment")
  modify fun w => { w with env := (name, value) :: w.env.filter (·.1 ≠ name) }

/-- Removes an environment variable. -/
def unsetVar (name : String) : Sweep Unit :=
  modify fun w => { w with env := w.env.filter (·.1 ≠ name) }

/-- Prints a text. -/
def print (s : String) : Sweep Unit :=
  modify fun w => { w with out := w.out ++ s }

/-- Prints a line. -/
def say (s : String) : Sweep Unit :=
  print (s ++ "\n")

/-- Prints a line as a diagnostic. -/
def warn (s : String) : Sweep Unit :=
  modify fun w => { w with err := w.err ++ s ++ "\n" }

/-- Reads a line from the keyboard, without its end; none if there is nothing left. -/
def readLine : Sweep (Option (List Char)) := do
  let w ← world
  match w.input with
  | [] => return none
  | text =>
    set { w with input := (text.dropWhile (· ≠ '\n')).drop 1 }
    return some (text.takeWhile (· ≠ '\n'))

/-! ## Files -/

/-- The working directory. -/
def cwd : Sweep String := do
  match (← world).disk.cwd.place? with
  | some p => return p.text
  | none => fail .noWorkDir

/-- The normal form of a path from the root on. -/
def absolute (path : String) : Sweep String := do
  if Path.isAbsolute path then return Path.normalize path
  else return Path.absolute (← cwd) path

/-- Refuses a path with a NUL character, which no file can have. -/
def checkPath (path : String) : Sweep Unit := do
  if path.toList.contains '\x00' then fail (.badValue "embedded null byte")

/-- Refuses a text with characters that no file can hold. -/
def checkText (text : List Char) : Sweep Unit := do
  if !(← world).disk.medium.canHold text then fail .unencodable

/-- The outcome of an operation on the file at a path. -/
def refused {α : Type} (path : String) : Except Errno α → Sweep α
  | .ok a => pure a
  | .error e => fail (.os e path)

/-- The contents of a file. -/
def readBytes (path : String) : Sweep Bytes := do
  checkPath path
  refused path ((← world).disk.read path)

/-- The text of a file. -/
def readText (path : String) : Sweep (List Char) := do
  match Text.decode (← readBytes path) with
  | .ok text => return text
  | .error e => fail (.undecodable e)

/-- Writes a file anew. -/
def writeBytes (path : String) (bytes : Bytes) : Sweep Unit := do
  checkPath path
  let disk ← refused path ((← world).disk.write path bytes)
  modify fun w => { w with disk }

/-- Writes a text into a file. -/
def writeText (path : String) (text : List Char) : Sweep Unit :=
  writeBytes path (Text.encode text)

/-- Writes a text at the end of a file. -/
def appendText (path : String) (text : List Char) : Sweep Unit := do
  checkPath path
  let disk ← refused path ((← world).disk.append path (Text.encode text))
  modify fun w => { w with disk }

/-- Opens a file to write at its end; the answer is the number of the open file. -/
def holdFile (path : String) : Sweep Nat := do
  checkPath path
  let (disk, number) ← refused path ((← world).disk.hold path)
  modify fun w => { w with disk }
  return number

/-- Makes a directory and those above it. -/
def makeDirs (p : Path) : Sweep Unit := do
  checkPath p.text
  match (← world).disk.makeDirs p.root p.parts with
  | (disk, none) => modify fun w => { w with disk }
  | (disk, some (e, path)) =>
    modify fun w => { w with disk }
    fail (.os e path)

/-- What a path leads to, if it leads to anything. A path that cannot be followed does not; a name
that is too long is an error. -/
def nodeAt? (path : String) : Sweep (Option Node) := do
  if path.toList.contains '\x00' then return none
  match (← world).disk.stat path with
  | .ok n => return some n
  | .error .missing | .error .notDirectory | .error .tooManyLinks => return none
  | .error e => fail (.os e path)

/-- Whether a path leads to something. -/
def pathExists (p : Path) : Sweep Bool :=
  return (← nodeAt? p.text).isSome

/-- Whether a path leads to a directory. -/
def isDirectory (path : String) : Sweep Bool :=
  return (← nodeAt? path) == some .dir

/-- The real path of a path. Links that lead in a circle are an error. -/
def resolve (p : Path) : Sweep Path := do
  checkPath p.text
  let disk := (← world).disk
  match disk.realPath? p.text with
  | none => fail .noWorkDir
  | some real =>
    match disk.stat real with
    | .error .tooManyLinks => fail .unresolvable
    | _ => return Path.ofString real

/-- The path with a `~` at its start replaced by a home directory. -/
def expandHome (p : Path) : Sweep Path := do
  match p.isRooted, p.parts with
  | false, first :: rest =>
    match first.toList with
    | '~' :: user =>
      let w ← world
      let home :=
        if user.isEmpty then (w.env.lookup "HOME").orElse fun _ => w.homes.lookup ""
        else w.homes.lookup (String.ofList user)
      match home with
      | none => fail .unresolvable
      | some home =>
        let home := String.ofList (home.toList.reverse.dropWhile (· = '/')).reverse
        let home := if home = "" then "/" else home
        if home.toList.head? = some '~' then fail .unresolvable
        let base := Path.ofString home
        return ⟨base.root, base.parts ++ rest⟩
    | _ => return p
  | _, _ => return p

/-! ## Counters -/

/-- The counters, which start with their first use. -/
def metrics : Sweep Metrics := do
  let w ← world
  match w.metrics with
  | some m => return m
  | none =>
    let m := Metrics.new Metrics.defaultSpan w.now
    set { w with metrics := some m }
    return m

/-- Changes the counters; the change may be refused, in the middle of it too. -/
def count (change : Metrics → Number → Metrics × Option Fault) : Sweep Unit := do
  let m ← metrics
  let (m, refusal) := change m (← world).now
  modify fun w => { w with metrics := some m }
  match refusal with
  | some f => fail f
  | none => pure ()

/-- The state of the counters as JSON. -/
def snapshot : Sweep Json := do
  let m ← metrics
  let (m, shown) := m.snapshot (← world).now
  modify fun w => { w with metrics := some m }
  ofExcept shown

/-- Adds the state of the counters to a file, as a line of JSON. -/
def writeSnapshot (p : Path) : Sweep Unit := do
  let shown ← snapshot
  makeDirs p.parent
  appendText p.text []
  if !shown.isWritable then fail (.badValue "number with too many digits")
  appendText p.text (shown.line ++ ['\n'])

/-! ## Log -/

/-- Counts a record under the name of its level in lower case, and an error once more. What is given
for the name has to be a text. -/
def countRecord (r : Log.Record) : Sweep Unit := do
  unless r.isInternal do
    match r.label.str? with
    | none => fail .noPart
    | some label =>
      count fun m now => m.record now (Log.counterOf label) (r.level < Log.error) (.int 1)
      if Log.error ≤ r.level then count fun m now => m.recordError now "log.error"

/-- Tells that a record could not be put into a log file. What is told of the reason is left out. -/
def complain : Sweep Unit :=
  warn "--- Logging error ---"

/-- Adds a line to an open log file, which grows without end (see `Logger.prepare`). -/
def logLine (file : Nat) (line : String) : Sweep Unit := do
  if (← world).disk.medium.canHold line.toList then
    modify fun w =>
      { w with disk := w.disk.appendHeld file (Text.encode (line ++ "\n").toList) }
  else complain

/-- Puts a record into a sink. -/
def deliver (r : Log.Record) (message : String) : Log.Sink → Sweep Unit
  | .silent => pure ()
  | .terminal => warn (r.brief message)
  | .plainFile file => logLine file (r.plainLine message)
  | .jsonFile file =>
    match r.jsonLine with
    | .ok line => logLine file (String.ofList line)
    | .error _ => complain
  | .counters => countRecord r

/-- Logs a record: it goes to every handler that takes its level. Without handlers, warnings and
errors go to the terminal as they are. -/
def emit (r : Log.Record) : Sweep Unit := do
  modify fun w => { w with journal := r :: w.journal }
  let setup := (← world).logging
  if setup.isEnabled r.logger r.level then
    let message ← ofExcept r.message
    if setup.handlers.isEmpty then
      if Log.warning ≤ r.level then warn message
    else
      setup.handlers.forM fun h => do
        if h.level ≤ r.level then deliver r message h.sink

/-- Logs a message with structured fields. -/
def logWith (logger : String) (level : Log.Level) (message : String)
    (extras : List (String × Json)) (isInternal : Bool) : Sweep Unit := do
  emit ⟨logger, level, message, [], .unknown, (← world).logTime, extras, isInternal⟩

/-- Logs a message. -/
def log (logger : String) (level : Log.Level) (message : String) : Sweep Unit :=
  logWith logger level message [] false

end Sweep

end ConsoleSweep
