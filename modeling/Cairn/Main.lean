import Cairn.Command.Perform

/-!
# Cairn — the program

Performs the command line on the files and streams of the process. Input is
read one line at a time, and only when a program asks for it.
-/

namespace Cairn.Shell

-- ---------------------------------------------------------------------------
-- Files
-- ---------------------------------------------------------------------------

/-- Whether an error code is the given one. Some calls report it negated. -/
def isCode (code number : UInt32) : Bool :=
  code = number || code + number = 0

/-- The fault that an error of the system stands for. -/
def faultOf (e : IO.Error) : FileFault :=
  match e with
  | .noFileOrDirectory .. => .notFound
  | .permissionDenied .. => .denied
  | .inappropriateType _ code _ => if isCode code 21 then .isFolder else .notFolder
  | .invalidArgument _ code _ => if isCode code 36 then .nameTooLong else .other (toString e)
  | e => .other (toString e)

/-- Reads a file. -/
def readFile (path : String) : IO (Except FileFault (List UInt8)) := do
  try
    return .ok (← IO.FS.readBinFile path).toList
  catch e =>
    return .error (faultOf e)

/-- Writes a file. -/
def writeFile (path : String) (bytes : List UInt8) : IO (Except FileFault Unit) := do
  try
    IO.FS.writeBinFile path ⟨bytes.toArray⟩
    return .ok ()
  catch e =>
    return .error (faultOf e)

-- ---------------------------------------------------------------------------
-- Streams
-- ---------------------------------------------------------------------------

/-- Reads a line with its line feed; at the end of input it is empty. -/
partial def readLine (input : IO.FS.Stream) (line : List UInt8) : IO (List UInt8) := do
  match (← input.read 1).toList with
  | [] => return line.reverse
  | 10 :: _ => return (10 :: line).reverse
  | b :: _ => readLine input (b :: line)

/-- Shows an outcome and gives its exit code. -/
def finish (o : Outcome) : IO UInt32 := do
  let output ← IO.getStdout
  output.putStr o.output
  output.flush
  (← IO.getStderr).putStr o.errors
  return UInt32.ofNat o.status.code

/-- Executes again an instruction that found no input, now with a line to read.
The line has been asked for, so that is not done a second time. -/
def retry (m : Machine) (line : List UInt8) : Machine × Machine.StepResult :=
  let quiet := { m.options with prompt := false }
  let result := { m with steps := m.steps - 1, input := line, options := quiet }.step
  ({ result.1 with options := m.options }, result.2)

/-- Runs a machine to its end. -/
partial def execute (input output : IO.FS.Stream) (m : Machine) : IO UInt32 := do
  let (m, ending) := m.runFor 4096
  output.putStr m.output
  let m := { m with output := "" }
  match ending with
  | none => execute input output m
  | some (.failed .endOfInput) =>
    output.flush
    let line ← readLine input []
    if line.isEmpty then finish (.ofEnding m (.failed .endOfInput))
    else
      match retry m line with
      | (m, .executed) => execute input output m
      | (m, .halted) => finish (.ofEnding m .halted)
      | (m, .failed fault) => finish (.ofEnding m (.failed fault))
  | some ending => finish (.ofEnding m ending)

/-- Performs a command. -/
def perform (c : Command) : IO UInt32 := do
  match c.task (← readFile c.file) with
  | .done outcome => finish outcome
  | .store path bytes =>
    match ← writeFile path bytes with
    | .ok () => finish (.success "")
    | .error fault => finish (.cannotWrite path fault)
  | .execute code options =>
    execute (← IO.getStdin) (← IO.getStdout) (.start code options [])

end Cairn.Shell

/-- Performs the command line. -/
def main (words : List String) : IO UInt32 := do
  match Cairn.Command.read words with
  | .ok c => Cairn.Shell.perform c
  | .error interruption => Cairn.Shell.finish (.ofInterruption interruption)
