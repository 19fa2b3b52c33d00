import Cairn.Number.Integer

/-!
# Cairn — the words of the command line

The commands, their settings, and the help that lists them.
-/

namespace Cairn

-- ---------------------------------------------------------------------------
-- Settings
-- ---------------------------------------------------------------------------

/-- What can be set for a command. -/
inductive Setting where
  | prompt
  | maxSteps
  | maxStack
  | output
  | binary
deriving DecidableEq, Repr

namespace Setting

/-- The name of the setting. -/
def long : Setting → String
  | .prompt => "prompt"
  | .maxSteps => "max-steps"
  | .maxStack => "max-stack"
  | .output => "output"
  | .binary => "binary"

/-- The letter that may be used for the name. -/
def short? : Setting → Option Char
  | .output => some 'o'
  | _ => none

/-- What the value of the setting is called, if it has one. -/
def value? : Setting → Option String
  | .prompt => none
  | .maxSteps => some "MAX_STEPS"
  | .maxStack => some "MAX_STACK"
  | .output => some "OUTPUT"
  | .binary => none

end Setting

-- ---------------------------------------------------------------------------
-- Commands
-- ---------------------------------------------------------------------------

/-- The names of the commands. -/
inductive Verb where
  | run
  | check
  | build
  | exec
  | disasm
deriving DecidableEq, Repr

namespace Verb

/-- All of them, in the order in which help lists them. -/
def all : List Verb :=
  [.run, .check, .build, .exec, .disasm]

/-- The word for the command. -/
def name : Verb → String
  | .run => "run"
  | .check => "check"
  | .build => "build"
  | .exec => "exec"
  | .disasm => "disasm"

/-- The command with the given word. -/
def ofName? (word : String) : Option Verb :=
  all.find? fun v => v.name == word

theorem ofName?_name (v : Verb) : ofName? v.name = some v := by
  cases v <;> decide

/-- What the command does. -/
def about : Verb → String
  | .run => "Compile a source file and execute it"
  | .check => "Type check a source file without running it"
  | .build => "Compile a source file and save the bytecode"
  | .exec => "Execute saved bytecode"
  | .disasm => "Print saved bytecode with addresses and resolved jump targets"

/-- The settings that the command takes. -/
def settings : Verb → List Setting
  | .run => [.prompt, .maxSteps, .maxStack]
  | .check => []
  | .build => [.output, .binary]
  | .exec => [.binary, .prompt, .maxSteps, .maxStack]
  | .disasm => [.binary]

/-- What a setting does for the command. -/
def aboutSetting (v : Verb) : Setting → String
  | .prompt => "Print an \"Input <type>:\" prompt before every read"
  | .maxSteps => "Stop after executing this many instructions"
  | .maxStack => "Maximum operand stack depth [default: 1024]"
  | .output => "Output path (defaults to the source path with a .pbc or .pbin extension)"
  | .binary =>
    match v with
    | .build => "Write compact binary bytecode instead of the text listing"
    | _ => "The file holds binary bytecode"

end Verb

-- ---------------------------------------------------------------------------
-- Help
-- ---------------------------------------------------------------------------

/-- What help can be about. -/
inductive Topic where
  | program
  | command (verb : Verb)
  | help
deriving DecidableEq, Repr

namespace Topic

/-- The name of the program on the command line. -/
def invocation : String := "pila"

/-- What the command for help does. -/
def aboutHelp : String :=
  "Print this message or the help of the given subcommand(s)"

/-- Two columns; the first one is as wide as its widest entry. -/
def table (entries : List (String × String)) : List String :=
  let width := (entries.map fun e => e.1.length).foldl max 0
  entries.map fun e =>
    "  " ++ e.1 ++ String.ofList (List.replicate (width - e.1.length) ' ') ++ "  " ++ e.2

/-- How a setting is written. -/
def written (s : Setting) : String :=
  let short :=
    match s.short? with
    | some c => "-" ++ String.singleton c ++ ", "
    | none => "    "
  let value :=
    match s.value? with
    | some value => " <" ++ value ++ ">"
    | none => ""
  short ++ "--" ++ s.long ++ value

/-- The lines of help on a command. -/
def commandLines (v : Verb) : List String :=
  let settings := v.settings.map fun s => (written s, v.aboutSetting s)
  let options := if settings.isEmpty then "" else "[OPTIONS] "
  [v.about, "", s!"Usage: {invocation} {v.name} {options}<FILE>", "", "Arguments:", "  <FILE>  ", "",
    "Options:"] ++ table (settings ++ [("-h, --help", "Print help")])

/-- The lines of help. -/
def lines : Topic → List String
  | .program =>
    ["Compile and run Pila programs", "", s!"Usage: {invocation} <COMMAND>", "", "Commands:"] ++
      table (Verb.all.map (fun v => (v.name, v.about)) ++ [("help", aboutHelp)]) ++
      ["", "Options:", "  -h, --help  Print help"]
  | .command v => commandLines v
  | .help =>
    [aboutHelp, "", s!"Usage: {invocation} help [COMMAND]...", "", "Arguments:",
      "  [COMMAND]...  Print help for the subcommand(s)"]

/-- The text of help. -/
def text (t : Topic) : String :=
  String.join (t.lines.map (· ++ "\n"))

end Topic

end Cairn
