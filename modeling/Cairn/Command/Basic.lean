import Cairn.Bytecode.Decode
import Cairn.Command.Usage
import Cairn.Machine.Basic

/-!
# Cairn — the command line

A command line is read word by word. The first thing that is wrong with it
decides, and so does the first request for help.
-/

namespace Cairn

/-- What can be asked for. -/
inductive Command where
  | run (file : String) (options : Options)
  | check (file : String)
  | build (file : String) (output : Option String) (form : Form)
  | exec (file : String) (form : Form) (options : Options)
  | disasm (file : String) (form : Form)
deriving DecidableEq, Repr

/-- The file that a command is about. -/
def Command.file : Command → String
  | .run file _ => file
  | .check file => file
  | .build file _ _ => file
  | .exec file _ _ => file
  | .disasm file _ => file

/-- What can be wrong with a command line. -/
inductive UsageError where
  | noCommand
  | unknownCommand (word : String)
  | unexpected (word : String)
  | missingFile
  | missingValue (setting : Setting)
  | badValue (setting : Setting) (word : String)
  | repeated (setting : Setting)
deriving DecidableEq, Repr

/-- The wording of the error. -/
def UsageError.message : UsageError → String
  | .noCommand => "a command is required"
  | .unknownCommand word => s!"unrecognized command '{word}'"
  | .unexpected word => s!"unexpected argument '{word}'"
  | .missingFile => "a file is required"
  | .missingValue setting => "a value is required for '--" ++ setting.long ++ "'"
  | .badValue setting word => s!"invalid value '{word}' for '--" ++ setting.long ++ "'"
  | .repeated setting => "'--" ++ setting.long ++ "' cannot be used multiple times"

/-- Why a command line holds no command. -/
inductive Interruption where
  | help (topic : Topic)
  | usage (error : UsageError)
deriving DecidableEq, Repr

-- ---------------------------------------------------------------------------
-- Words
-- ---------------------------------------------------------------------------

/-- What a word of the command line is. -/
inductive Argument where
  | file (path : String)
  /-- All words that follow are files. -/
  | filesOnly
  | help
  | flag (setting : Setting)
  /-- The value is the next word, if it is not in this one. -/
  | valued (setting : Setting) (value : Option String)
  | unknown
deriving DecidableEq, Repr

namespace Argument

/-- A setting in a word, with the value that the word gives it. -/
def ofSetting (s : Setting) (value : Option String) : Argument :=
  match s.value?, value with
  | some _, value => .valued s value
  | none, none => .flag s
  | none, some _ => .unknown

/-- A setting by name, or by name and value with an equals sign between them. -/
def ofLong (v : Verb) (cs : List Char) : Argument :=
  let name := String.ofList (cs.takeWhile (· != '='))
  let value :=
    match cs.dropWhile (· != '=') with
    | [] => none
    | _ :: value => some (String.ofList value)
  if name = "help" then
    if value.isNone then .help else .unknown
  else
    match v.settings.find? (·.long == name) with
    | some s => ofSetting s value
    | none => .unknown

/-- A setting by letter; a value may follow, with or without an equals sign. -/
def ofShort (v : Verb) (letter : Char) (cs : List Char) : Argument :=
  if letter = 'h' then .help
  else
    match v.settings.find? (·.short? == some letter) with
    | none => .unknown
    | some s =>
      match cs with
      | [] => ofSetting s none
      | '=' :: value => ofSetting s (some (String.ofList value))
      | value => ofSetting s (some (String.ofList value))

/-- What a word is for a command. -/
def ofWord (v : Verb) (word : String) : Argument :=
  match word.toList with
  | ['-', '-'] => .filesOnly
  | '-' :: '-' :: cs => ofLong v cs
  | '-' :: c :: cs => ofShort v c cs
  | _ => .file word

/-- Whether a word cannot be the value of the setting before it. -/
def looksLikeSetting (word : String) : Bool :=
  match word.toList with
  | '-' :: _ :: _ => true
  | _ => false

end Argument

-- ---------------------------------------------------------------------------
-- Commands
-- ---------------------------------------------------------------------------

/-- What was read of a command so far. -/
structure Draft where
  file : Option String := none
  prompt : Bool := false
  maxSteps : Option Nat := none
  maxStack : Option Nat := none
  output : Option String := none
  binary : Bool := false
deriving DecidableEq, Repr

namespace Draft

/-- Adds the file. There is one, and its path is not empty. -/
def addFile (d : Draft) (path : String) : Except Interruption Draft :=
  if d.file.isSome || path.isEmpty then .error (.usage (.unexpected path))
  else .ok { d with file := some path }

/-- Whether a setting has been made. -/
def has (d : Draft) : Setting → Bool
  | .prompt => d.prompt
  | .maxSteps => d.maxSteps.isSome
  | .maxStack => d.maxStack.isSome
  | .output => d.output.isSome
  | .binary => d.binary

/-- Makes a setting, or says that the value is no good for it. -/
def assign? (d : Draft) (s : Setting) (value : String) : Option Draft :=
  let count := readUnsigned? UInt64.size value.toList
  match s with
  | .prompt => some { d with prompt := true }
  | .binary => some { d with binary := true }
  | .maxSteps => count.map fun n => { d with maxSteps := some n }
  | .maxStack => count.map fun n => { d with maxStack := some n }
  | .output => if value.isEmpty then none else some { d with output := some value }

/-- Makes a setting that has not been made. -/
def assign (d : Draft) (s : Setting) (value : String) : Except Interruption Draft :=
  match d.assign? s value with
  | none => .error (.usage (.badValue s value))
  | some e => if d.has s then .error (.usage (.repeated s)) else .ok e

/-- Reads the words behind a command's name. -/
def read (v : Verb) (d : Draft) : List String → Except Interruption Draft
  | [] => .ok d
  | word :: rest =>
    match Argument.ofWord v word with
    | .file path => do read v (← d.addFile path) rest
    | .filesOnly => rest.foldlM addFile d
    | .help => .error (.help (.command v))
    | .flag s => do read v (← d.assign s "") rest
    | .valued s (some value) => do read v (← d.assign s value) rest
    | .valued s none =>
      match rest with
      | [] => .error (.usage (.missingValue s))
      | value :: rest =>
        if Argument.looksLikeSetting value then .error (.usage (.missingValue s))
        else do read v (← d.assign s value) rest
    | .unknown => .error (.usage (.unexpected word))

/-- The form of stored bytecode. -/
def form (d : Draft) : Form :=
  if d.binary then .binary else .text

/-- The options of a run. -/
def options (d : Draft) : Options where
  prompt := d.prompt
  maxStack := d.maxStack.getD 1024
  maxSteps := d.maxSteps

/-- The command that was read. -/
def command (d : Draft) (v : Verb) : Except Interruption Command :=
  match d.file with
  | none => .error (.usage .missingFile)
  | some file =>
    .ok <|
      match v with
      | .run => .run file d.options
      | .check => .check file
      | .build => .build file d.output d.form
      | .exec => .exec file d.form d.options
      | .disasm => .disasm file d.form

end Draft

namespace Command

/-- What help is asked for. -/
def readTopic : List String → Interruption
  | [] => .help .program
  | ["help"] => .help .help
  | word :: rest =>
    match Verb.ofName? word, rest with
    | some v, [] => .help (.command v)
    | some _, extra :: _ => .usage (.unknownCommand extra)
    | none, _ => .usage (.unknownCommand word)

/-- Reads a command line. -/
def read : List String → Except Interruption Command
  | [] => .error (.usage .noCommand)
  | word :: rest =>
    match Verb.ofName? word with
    | some v => do (← Draft.read v {} rest).command v
    | none =>
      if word = "help" then .error (readTopic rest)
      else if word = "--help" || word.startsWith "-h" then .error (.help .program)
      else .error (.usage (.unknownCommand word))

end Command

end Cairn
