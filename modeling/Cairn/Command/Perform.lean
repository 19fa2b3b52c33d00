import Cairn.Bytecode.Disassembly
import Cairn.Command.Basic
import Cairn.Command.Folder
import Cairn.Report.Basic
import Cairn.Report.Chain

/-!
# Cairn — what commands do

A command looks at its file and then either is done, or stores bytes, or
executes code. `Command.task` says which, and needs nothing but the contents of
the file. `Command.perform` does it in a folder; an execution that does not come
to an end within the given number of instructions has no outcome.
-/

namespace Cairn

-- ---------------------------------------------------------------------------
-- Outcomes
-- ---------------------------------------------------------------------------

/-- How a command went. -/
inductive Status where
  | success
  | failure
  | badUsage
deriving DecidableEq, Repr, Inhabited

/-- The exit code. -/
def Status.code : Status → Nat
  | .success => 0
  | .failure => 1
  | .badUsage => 2

/-- What a command leaves behind: how it went, and what it wrote to its output
and about errors. -/
structure Outcome where
  status : Status
  output : String
  errors : String
deriving DecidableEq, Repr, Inhabited

namespace Outcome

/-- All went well. -/
def success (output : String) : Outcome :=
  ⟨.success, output, ""⟩

/-- Nothing was written but the report of an error. -/
def failure (errors : String) : Outcome :=
  ⟨.failure, "", errors⟩

/-- A file could not be read. -/
def cannotRead (path : String) (fault : FileFault) : Outcome :=
  .failure (chainReport ("cannot read " ++ path) [fault.message])

/-- A file could not be written. -/
def cannotWrite (path : String) (fault : FileFault) : Outcome :=
  .failure (chainReport ("cannot write " ++ path) [fault.message])

/-- A file does not hold bytecode. -/
def notBytecode (path : String) (error : DecodeError) : Outcome :=
  .failure (chainReport ("invalid bytecode in " ++ path) [error.message, error.cause])

/-- There was no command to perform. -/
def ofInterruption : Interruption → Outcome
  | .help topic => .success topic.text
  | .usage error =>
    ⟨.badUsage, "", "error: " ++ error.message ++ "\n\nFor more information, try '--help'.\n"⟩

/-- A run came to an end. -/
def ofEnding (m : Machine) : Machine.Ending → Outcome
  | .halted => .success m.output
  | .failed fault => ⟨.failure, m.output, (Failure.runtime fault).message ++ "\n"⟩

end Outcome

-- ---------------------------------------------------------------------------
-- Tasks
-- ---------------------------------------------------------------------------

/-- What a command does when it has seen its file. -/
inductive Task where
  | done (outcome : Outcome)
  | store (path : String) (bytes : List UInt8)
  | execute (code : Code) (options : Options)
deriving DecidableEq

namespace Command

/-- The text of a file. -/
def readSource (path : String) (contents : Except FileFault (List UInt8)) :
    Except Outcome String :=
  match contents with
  | .error fault => .error (.cannotRead path fault)
  | .ok bytes =>
    match ofUtf8? bytes with
    | some source => .ok source
    | none => .error (.cannotRead path .badEncoding)

/-- The code of a source file. -/
def compileFile (path : String) (contents : Except FileFault (List UInt8)) :
    Except Outcome Code := do
  let source ← readSource path contents
  (compileSource source).mapError fun f => .failure (f.report true path source)

/-- Looks for what is wrong with a source text, and keeps nothing of its code. -/
def checkSource (source : String) : Except Failure Unit :=
  match parse source with
  | .error error => .error (.parse error)
  | .ok program =>
    let diagnostics := (Program.compile program).diagnostics
    if diagnostics.isEmpty then .ok () else .error (.compile diagnostics)

/-- Checks a source file. -/
def checkFile (path : String) (contents : Except FileFault (List UInt8)) :
    Except Outcome Unit := do
  let source ← readSource path contents
  (checkSource source).mapError fun f => .failure (f.report true path source)

/-- The code in a file with stored bytecode. -/
def loadFile (path : String) (form : Form) (contents : Except FileFault (List UInt8)) :
    Except Outcome Code := do
  match form with
  | .binary =>
    let bytes ← contents.mapError (.cannotRead path)
    (decodeBinary bytes).mapError (.notBytecode path)
  | .text =>
    let source ← readSource path contents
    (decodeText source).mapError (.notBytecode path)

/-- Where a command that stores bytecode puts it. -/
def outputPath (file : String) (output : Option String) (form : Form) : String :=
  output.getD (Path.withExtension file form.extension)

/-- What a command does when its file has the given contents. -/
def task (c : Command) (contents : Except FileFault (List UInt8)) : Task :=
  let result : Except Outcome Task :=
    match c with
    | .run file options => do
      return .execute (← compileFile file contents) options
    | .check file => do
      checkFile file contents
      return .done (.success (file ++ ": ok\n"))
    | .build file output form => do
      return .store (outputPath file output form) (form.encode (← compileFile file contents))
    | .exec file form options => do
      return .execute (← loadFile file form contents) options
    | .disasm file form => do
      return .done (.success (Disassembly.write (← loadFile file form contents)))
  match result with
  | .ok task => task
  | .error outcome => .done outcome

/-- Performs a command in a folder. -/
def perform (fuel : Nat) (folder : Folder) (input : List UInt8) (c : Command) :
    Folder × Option Outcome :=
  match c.task (folder.read c.file) with
  | .done outcome => (folder, some outcome)
  | .store path bytes =>
    match folder.write path bytes with
    | .ok folder => (folder, some (.success ""))
    | .error fault => (folder, some (.cannotWrite path fault))
  | .execute code options =>
    let (m, ending) := (Machine.start code options input).runFor fuel
    (folder, ending.map (.ofEnding m))

/-- Performs a command line in a folder. -/
def performLine (fuel : Nat) (folder : Folder) (input : List UInt8) (words : List String) :
    Folder × Option Outcome :=
  match read words with
  | .ok c => c.perform fuel folder input
  | .error interruption => (folder, some (.ofInterruption interruption))

end Command

end Cairn
