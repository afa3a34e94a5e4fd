/-
  Why a piece of work was given up.
-/
import ConsoleSweep.Disk
import ConsoleSweep.Json.Parser
import ConsoleSweep.Settings.Issue

namespace ConsoleSweep

/-- The causes of failure. -/
inductive Fault where
  /-- An operation on the file at a path was refused. -/
  | os (errno : Errno) (path : String)
  /-- The directory to scan is none. -/
  | noDirectory (path : String)
  /-- The working directory is no longer there. -/
  | noWorkDir
  /-- A file is not UTF-8. -/
  | undecodable (error : Text.Utf8Error)
  /-- A text has characters that no file can hold. -/
  | unencodable
  /-- A value of the right kind that cannot be used. -/
  | badValue (message : String)
  /-- A value of the wrong kind. -/
  | badType
  /-- A value without the part that was asked for. -/
  | noPart
  /-- A name that stands for nothing. -/
  | noName
  /-- A number too large to be used. -/
  | tooLarge
  /-- A text too long for the memory. -/
  | noMemory
  /-- A text with too many levels to be read. -/
  | tooDeep
  /-- A moment that the operating system has no date for. -/
  | farTime
  /-- A variable without a name. -/
  | emptyName
  /-- A path that leads nowhere: links in a circle, or the home of an unknown user. -/
  | unresolvable
  /-- Settings that cannot be used. -/
  | invalid (group : String) (issues : List Settings.Issue)
  deriving DecidableEq, Repr

/-- What a change came to, unless it was refused. -/
def Fault.unlessRefused {α : Type} : α × Option Fault → Except Fault α
  | (a, none) => .ok a
  | (_, some f) => .error f

/-- The wording of an operating system's refusal, without what it is about. -/
def Errno.wording (e : Errno) : String :=
  "[Errno " ++ Text.ofNat e.code ++ "] " ++ e.text

/-- The wording of a refusal about a path. -/
def Errno.message (e : Errno) (path : String) : String :=
  e.wording ++ ": " ++ Text.quoted path

/-- The wording of a refusal about two paths, of which the first was to become the second. -/
def Errno.messageOfTwo (e : Errno) (source goal : String) : String :=
  e.message source ++ " -> " ++ Text.quoted goal

/-- The wording of a fault. -/
def Fault.message : Fault → String
  | .os e path => e.message path
  | .noDirectory path => "Not a directory: " ++ path
  | .noWorkDir => Errno.missing.wording
  | .undecodable e => e.message
  | .unencodable => "surrogates not allowed"
  | .badValue m => m
  | .badType => "unsupported kind of value"
  | .noPart => "missing part"
  | .noName => "unknown name"
  | .tooLarge => "number too large"
  | .noMemory => "text too long"
  | .tooDeep => "too many levels"
  | .farTime => "[Errno 75] Value too large for defined data type"
  | .emptyName => Errno.invalid.wording
  | .unresolvable => "path leads nowhere"
  | .invalid group issues => Settings.report group issues

/-- The fault of a JSON text. -/
def Fault.ofParse (e : Json.ParseError) : Fault :=
  match e.problem with
  | .tooDeep => .tooDeep
  | _ => .badValue e.message

/-- Whether the fault is that a file could not be read or written. -/
def Fault.isFileTrouble : Fault → Bool
  | .os .. => true
  | .noDirectory _ => true
  | .noWorkDir => true
  | .undecodable _ => true
  | .farTime => true
  | .emptyName => true
  | _ => false

/-- Whether the fault is that something is not there. -/
def Fault.isMissing : Fault → Bool
  | .os .missing _ => true
  | .noDirectory _ => true
  | .noWorkDir => true
  | _ => false

/-- Whether the fault is a refusal of the operating system. -/
def Fault.isRefusal : Fault → Bool
  | .os .. => true
  | .noDirectory _ => true
  | .noWorkDir => true
  | .farTime => true
  | .emptyName => true
  | _ => false

end ConsoleSweep
