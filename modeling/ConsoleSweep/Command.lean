/-
  The command line of the program: its options and its commands, with a note on
  each.
-/
import ConsoleSweep.Arguments

namespace ConsoleSweep

/-- What the program is asked to do. -/
inductive Command where
  | scan (root : Option String)
  | rescan (root : Option String)
  | show
  | clean (root : Option String) (yes rescan : Bool)
  | cleanFile (path : String) (yes : Bool)
  | watch (root : Option String)
  | config
  deriving DecidableEq, Repr

/-- The options for all commands. -/
structure Options where
  /-- The root of the project; none if the option is given and has no value. -/
  configRoot : Option String
  store : Option String
  report : Option String
  metrics : Option String
  methods : Option String
  logLevel : Option String
  deriving DecidableEq, Repr

/-- A command line that makes sense. -/
structure Request where
  options : Options
  command : Command
  deriving DecidableEq, Repr

namespace Command

open ConsoleSweep.Arguments

/-- The word for a command. -/
def name : Command → String
  | .scan _ => "scan"
  | .rescan _ => "rescan"
  | .show => "show"
  | .clean .. => "clean"
  | .cleanFile .. => "clean-file"
  | .watch _ => "watch"
  | .config => "config"

/-- The name of the program. -/
def program : String := "console-cleaner"

/-! ## The grammars -/

/-- The option that shows the help. -/
def helpOption : Opt := ⟨["-h", "--help"], .help, "show this help message and exit"⟩

/-- The switch that answers the question before it is asked. -/
def yesOption : Opt := ⟨["--yes", "-y"], .switch, "Skip the confirmation prompt"⟩

/-- The switch that asks for a new scan. -/
def rescanOption : Opt := ⟨["--rescan"], .switch, "Scan before cleaning"⟩

/-- The options for all commands. -/
def valueOptions : List Opt :=
  [⟨["--config-root"], .value, "Project root holding .console-cleaner/settings.json"⟩,
   ⟨["--store"], .value, "Result store JSON path"⟩,
   ⟨["--report"], .value, "Append per-file clean results to this CSV"⟩,
   ⟨["--metrics"], .value, "Append a JSON metrics snapshot to this file after the command"⟩,
   ⟨["--methods"], .value, "Comma-separated console methods (overrides config)"⟩,
   ⟨["--log-level"], .value, "Log level (DEBUG, INFO, ...)"⟩]

/-- A command as it is written: its word, a note on it, its switches and its operand, and how it is
made from what was given. -/
structure Form where
  word : String
  note : String
  switches : List Opt
  operand : Operand
  make : Taken → Command

/-- The operand of a scan. -/
def scanRoot : Operand := .optional "root" "Directory to scan (default: config root)"

/-- The commands. -/
def forms : List Form :=
  [⟨"scan", "Scan a project for console calls", [], scanRoot, fun t => .scan t.operand⟩,
   ⟨"rescan", "Alias of scan", [], scanRoot, fun t => .rescan t.operand⟩,
   ⟨"show", "Print the last scan results", [], .none, fun _ => .show⟩,
   ⟨"clean", "Remove console calls from every file with results", [yesOption, rescanOption],
    .optional "root" "Directory to scan when no results exist",
    fun t => .clean t.operand (t.isGiven "--yes") (t.isGiven "--rescan")⟩,
   ⟨"clean-file", "Remove console calls from one file", [yesOption], .required "path" "",
    fun t => .cleanFile (t.operand.getD "") (t.isGiven "--yes")⟩,
   ⟨"watch", "Keep results current while files change", [], .optional "root" "",
    fun t => .watch t.operand⟩,
   ⟨"config", "Print the effective configuration", [], .none, fun _ => .config⟩]

/-- The grammar of a command. -/
def Form.grammar (f : Form) : Grammar :=
  { program := program ++ " " ++ f.word, about := "", options := helpOption :: f.switches
    operand := f.operand }

/-- The grammar of the options for all commands. -/
def mainGrammar : Grammar :=
  { program, about := "Find and remove console.* debug calls"
    options := helpOption :: valueOptions
    operand := .command "command" (forms.map fun f => (f.word, f.note)) }

/-! ## Parsing -/

/-- The options for all commands. -/
def optionsOf (t : Taken) : Options :=
  { configRoot := if t.isGiven "--config-root" then t.value? "--config-root" else some "."
    store := t.value? "--store", report := t.value? "--report", metrics := t.value? "--metrics"
    methods := t.value? "--methods", logLevel := t.value? "--log-level" }

/-- The refusal of a word that is no command. -/
def refuseChoice {α : Type} (word : String) : Except Stop α :=
  mainGrammar.refuse ("argument command: invalid choice: " ++ Text.quoted word ++
    " (choose from " ++ ", ".intercalate (forms.map fun f => Text.quoted f.word) ++ ")")

/-- Parses the command and its arguments; the arguments without a place come with it. -/
def parseCommand : List String → Except Stop (Command × List String)
  | [] => refuseChoice ""
  | word :: args =>
    match forms.find? (·.word = word) with
    | none => refuseChoice word
    | some form => do
      let t ← form.grammar.parse args
      return (form.make t, t.extras)

/-- Parses a command line. -/
def parse (args : List String) : Except Stop Request := do
  let t ← mainGrammar.parse args
  let (command, extras) ← parseCommand t.command
  match t.extras ++ extras with
  | [] => return ⟨optionsOf t, command⟩
  | unplaced => mainGrammar.refuse ("unrecognized arguments: " ++ " ".intercalate unplaced)

end Command

end ConsoleSweep
