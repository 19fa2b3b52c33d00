import Cairn.Bytecode.Instruction
import Cairn.Compile.Diagnostic
import Cairn.Compile.Symbols

/-!
# Cairn — code under construction

Checking and compiling go over a program together, once. What they build up is
the code, the labels handed out, the names declared and the faults found.
-/

namespace Cairn

/-- The state of a compilation. -/
structure Emitter where
  code : Code
  /-- The label to hand out next. -/
  nextLabel : UInt32
  symbols : Symbols
  diagnostics : List Diagnostic

namespace Emitter

/-- Nothing compiled yet. -/
def start : Emitter where
  code := []
  nextLabel := 0
  symbols := .empty
  diagnostics := []

/-- Appends an instruction. -/
def emit (i : Instruction) : StateM Emitter Unit :=
  modify fun s => { s with code := s.code ++ [i] }

/-- How many instructions there are. -/
def offset : StateM Emitter Nat := do
  return (← get).code.length

/-- Puts an instruction in front of the one at the given offset. -/
def insertAt (offset : Nat) (i : Instruction) : StateM Emitter Unit :=
  modify fun s => { s with code := s.code.take offset ++ i :: s.code.drop offset }

/-- A label that was not handed out before. -/
def freshLabel : StateM Emitter UInt32 := do
  let s ← get
  set { s with nextLabel := s.nextLabel + 1 }
  return s.nextLabel

/-- Records a fault. -/
def report (loc : Location) (fault : TypeFault) : StateM Emitter Unit :=
  modify fun s => { s with diagnostics := s.diagnostics ++ [⟨loc, fault⟩] }

/-- The type of a name. -/
def typeOf? (name : String) : StateM Emitter (Option Ty) := do
  return (← get).symbols.find? name

end Emitter

end Cairn
