import Cairn.Bytecode.Decode
import Cairn.Compile.Basic
import Cairn.Machine.Basic
import Cairn.Parse

/-!
# Cairn — from source to a result

A program can fail at each stage: it does not parse, it does not check, its
stored form cannot be read, or its execution stops early. A `Failure` says
which, and holds what that stage found.
-/

namespace Cairn

/-- Why a program has no result. -/
inductive Failure where
  | parse (error : ParseError)
  | compile (diagnostics : List Diagnostic)
  | decode (error : DecodeError)
  | runtime (fault : Fault)

/-- The wording of the failure. -/
def Failure.message : Failure → String
  | .parse error => "Parse error: " ++ error.text
  | .compile diagnostics => s!"Compilation failed with {diagnostics.length} error(s)"
  | .decode error => "Invalid bytecode: " ++ error.message
  | .runtime fault => "Runtime error: " ++ fault.message

/-- The code of a program that parses and has no diagnostics. -/
def compileProgram (program : Program) : Except Failure Code :=
  let result := Program.compile program
  if result.diagnostics.isEmpty then .ok result.code
  else .error (.compile result.diagnostics)

/-- The code of a source text. -/
def compileSource (source : String) : Except Failure Code :=
  match parse source with
  | .error error => .error (.parse error)
  | .ok program => compileProgram program

end Cairn
