/-
  Command lines and their grammars.

  The arguments are first read one by one: an argument is an option that the grammar
  knows, perhaps shortened or with a value attached, an option it does not know, or
  an operand. After the divider `--` everything is an operand. Then the pieces are
  taken from left to right. What has no place in the grammar is kept aside, and it is
  left to the caller to complain about it.
-/
import ConsoleSweep.Text.Digit
import ConsoleSweep.Text.Quoted

namespace ConsoleSweep.Arguments

open ConsoleSweep.Text

/-- What an option is for: it shows the help, it is a switch, or it has a value. -/
inductive Kind where
  | help
  | switch
  | value
  deriving DecidableEq, Repr

/-- An option with all its names, and a note on what it is for. -/
structure Opt where
  names : List String
  kind : Kind
  note : String
  deriving DecidableEq, Repr

/-- The name by which an option is looked up. -/
def Opt.key (o : Opt) : String :=
  o.names.headD ""

/-- The operands that a grammar has a place for, each with a note. A command takes all arguments
after it. -/
inductive Operand where
  | none
  | optional (name note : String)
  | required (name note : String)
  | command (name : String) (commands : List (String × String))
  deriving DecidableEq, Repr

/-- Whether the operand may be left out. -/
def Operand.isOptional : Operand → Bool
  | .optional .. => true
  | _ => false

/-- What may be written after the name of a program, and what the program is for. -/
structure Grammar where
  program : String
  about : String
  options : List Opt
  operand : Operand
  deriving DecidableEq, Repr

/-- Why a command line is not carried out. -/
inductive Stop where
  /-- The help on a grammar is asked for. -/
  | help (g : Grammar)
  /-- The arguments make no sense to a grammar. -/
  | refusal (g : Grammar) (message : String)
  deriving DecidableEq, Repr

/-- Refuses a command line. -/
def Grammar.refuse {α : Type} (g : Grammar) (message : String) : Except Stop α :=
  .error (.refusal g message)

/-- Refuses a command line for one of its options. -/
def Grammar.refuseOption {α : Type} (g : Grammar) (o : Opt) (message : String) : Except Stop α :=
  g.refuse ("argument " ++ "/".intercalate o.names ++ ": " ++ message)

/-! ## Reading an argument -/

/-- An argument as a grammar sees it. -/
inductive Piece where
  | operand (text : String)
  | divider
  | option (o : Opt) (name : String) (attached : Option (List Char)) (raw : String)
  | unknown (raw : String)
  deriving DecidableEq, Repr

/-- The argument that a piece was read from. -/
def Piece.raw : Piece → String
  | .operand s => s
  | .divider => "--"
  | .option _ _ _ s => s
  | .unknown s => s

/-- All names of options, with their options. -/
def Grammar.names (g : Grammar) : List (String × Opt) :=
  g.options.flatMap fun o => o.names.map fun n => (n, o)

/-- The option with a name. -/
def Grammar.named? (g : Grammar) (name : String) : Option Opt :=
  g.names.lookup name

/-- The text before the first equals sign, and what is attached by it. -/
def cutEquals (arg : List Char) : List Char × Option (List Char) :=
  if arg.contains '=' then (arg.takeWhile (· ≠ '='), some ((arg.dropWhile (· ≠ '=')).drop 1))
  else (arg, none)

/-- The options that an argument may stand for: a long name can be shortened, and a short name can
have something attached. -/
def Grammar.candidates (g : Grammar) (arg : String) : List (Opt × String × Option (List Char)) :=
  match arg.toList with
  | '-' :: '-' :: _ =>
    let (start, attached) := cutEquals arg.toList
    (g.names.filter fun e => start.isPrefixOf e.1.toList).map fun e => (e.2, e.1, attached)
  | '-' :: c :: text =>
    g.names.filterMap fun e =>
      if e.1.toList = ['-', c] then some (e.2, e.1, some text)
      else if arg.toList.isPrefixOf e.1.toList then some (e.2, e.1, none)
      else none
  | _ => []

/-- Whether a character is a decimal digit. -/
def isDigit (c : Char) : Bool :=
  (digitValue? c).isSome

/-- Whether the text after a minus sign makes a number; a line break at its end is passed over. -/
def isNumber (text : List Char) : Bool :=
  let text := if text.getLast? = some '\n' then text.dropLast else text
  let tail := text.dropWhile isDigit
  match tail with
  | [] => !text.isEmpty
  | '.' :: places => !places.isEmpty && places.all isDigit
  | _ => false

/-- Reads an argument before the divider. -/
def Grammar.readOne (g : Grammar) (arg : String) : Except Stop Piece :=
  match arg.toList with
  | '-' :: text =>
    match g.named? arg with
    | some o => .ok (.option o arg none arg)
    | none =>
      if text.isEmpty then .ok (.operand arg)
      else
        let (start, attached) := cutEquals arg.toList
        match attached.bind fun _ => g.named? (String.ofList start) with
        | some o => .ok (.option o (String.ofList start) attached arg)
        | none =>
          match g.candidates arg with
          | [] => .ok (if isNumber text || text.contains ' ' then .operand arg else .unknown arg)
          | [(o, name, attached)] => .ok (.option o name attached arg)
          | many =>
            g.refuse ("ambiguous option: " ++ arg ++ " could match " ++
              ", ".intercalate (many.map fun c => c.2.1))
  | _ => .ok (.operand arg)

/-- Reads the arguments. -/
def Grammar.read (g : Grammar) : List String → Except Stop (List Piece)
  | [] => .ok []
  | arg :: rest =>
    if arg = "--" then .ok (.divider :: rest.map .operand)
    else do
      let piece ← g.readOne arg
      return piece :: (← g.read rest)

/-! ## Taking the pieces -/

/-- What was taken from a command line so far. -/
structure Taken where
  /-- The options that were given, last one first; a switch has no value, and nor has an option
  with the divider attached. -/
  options : List (Opt × Option String) := []
  operand : Option String := none
  /-- Whether the place of the operand is taken. -/
  isFilled : Bool := false
  /-- The command with its arguments. -/
  command : List String := []
  /-- The arguments without a place. -/
  extras : List String := []

/-- The last value that an option was given. -/
def Taken.value? (t : Taken) (key : String) : Option String :=
  (t.options.find? fun e => e.1.key = key).bind (·.2)

/-- Whether an option was given. -/
def Taken.isGiven (t : Taken) (key : String) : Bool :=
  t.options.any fun e => e.1.key = key

/-- Keeps an argument aside. -/
def Taken.aside (t : Taken) (raw : String) : Taken :=
  { t with extras := t.extras ++ [raw] }

/-- Fills the place of the operand. -/
def Taken.fill (t : Taken) (operand : Option String) : Taken :=
  { t with operand, isFilled := true }

/-- The options in one argument: those that are complete, and one at the end that nothing is
attached to. -/
structure Cluster where
  complete : List (Opt × Option String)
  pending : Option Opt

/-- The value that a text stands for; the divider stands for none. -/
def valueOf (text : String) : Option String :=
  if text = "--" then none else some text

/-- Takes an argument with something attached apart. Several short switches may stand together. -/
def Grammar.cluster (g : Grammar) (o : Opt) (name : String) (attached : List Char) :
    Except Stop Cluster :=
  let ignored : Except Stop Cluster :=
    g.refuseOption o ("ignored explicit argument " ++ quoted (String.ofList attached))
  if o.kind = .value then .ok ⟨[(o, valueOf (String.ofList attached))], none⟩
  else
    match name.toList, attached with
    | '-' :: '-' :: _, _ => ignored
    | _, [] => ignored
    | _, c :: text =>
      let letter := String.ofList ['-', c]
      match g.named? letter, text with
      | none, _ => ignored
      | some next, [] => .ok ⟨[(o, none)], some next⟩
      | some next, text => do
        let tail ← g.cluster next letter text
        return { tail with complete := (o, none) :: tail.complete }
termination_by attached.length

/-- Takes options one after the other; the first that asks for the help ends the work. -/
def Grammar.takeOptions (g : Grammar) (t : Taken) (options : List (Opt × Option String)) :
    Except Stop Taken :=
  if options.any fun e => e.1.kind = .help then .error (.help g)
  else .ok { t with options := options.reverse ++ t.options }

/-- Whether there is a free place for an operand. -/
def Grammar.hasPlace (g : Grammar) (t : Taken) : Bool :=
  !t.isFilled && g.operand ≠ .none

/-- Whether the operand is a command. -/
def Grammar.isCommand (g : Grammar) : Bool :=
  match g.operand with
  | .command .. => true
  | _ => false

/-- Takes the pieces. -/
def Grammar.take (g : Grammar) (t : Taken) (pieces : List Piece) : Except Stop Taken :=
  match pieces with
  | [] => .ok t
  | .unknown raw :: rest => g.take (t.aside raw) rest
  | .operand s :: rest =>
    if !g.hasPlace t then g.take (t.aside s) rest
    else if g.isCommand then .ok { t with command := s :: rest.map Piece.raw, isFilled := true }
    else
      match rest with
      | .divider :: rest => g.take (t.fill (some s)) rest
      | rest => g.take (t.fill (some s)) rest
  | .divider :: .operand s :: rest =>
    if !g.hasPlace t then g.take ((t.aside "--").aside s) rest
    else if g.isCommand then
      .ok { t with command := "--" :: s :: rest.map Piece.raw, isFilled := true }
    else g.take (t.fill (some s)) rest
  | .divider :: rest =>
    if g.hasPlace t && g.operand.isOptional then g.take (t.fill none) rest
    else g.take (t.aside "--") rest
  | .option o name attached _ :: rest =>
    let parts : Except Stop Cluster := match attached with
      | none => .ok ⟨[], some o⟩
      | some text => g.cluster o name text
    match parts with
    | .error stop => .error stop
    | .ok ⟨complete, none⟩ => do g.take (← g.takeOptions t complete) rest
    | .ok ⟨complete, some last⟩ =>
      if last.kind = .value then
        match rest with
        | .operand v :: rest => do
          g.take (← g.takeOptions t (complete ++ [(last, some v)])) rest
        | _ => g.refuseOption last "expected one argument"
      else do g.take (← g.takeOptions t (complete ++ [(last, none)])) rest
termination_by pieces.length

/-- Refuses a command line without the operand that has to be there. -/
def Grammar.checkOperand (g : Grammar) (t : Taken) : Except Stop Unit :=
  match g.operand with
  | .required name _ | .command name _ =>
    if t.isFilled then .ok ()
    else g.refuse ("the following arguments are required: " ++ name)
  | _ => .ok ()

/-- Parses the arguments of a program. -/
def Grammar.parse (g : Grammar) (args : List String) : Except Stop Taken := do
  let t ← g.take {} (← g.read args)
  g.checkOperand t
  return t

end ConsoleSweep.Arguments
