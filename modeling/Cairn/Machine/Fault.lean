import Cairn.Bytecode.Instruction

/-!
# Cairn — why execution stops early
-/

namespace Cairn

/-- What makes an instruction fail. -/
inductive Fault where
  | stackUnderflow
  | stackOverflow (limit : Nat)
  | unresolvedLabel (id : UInt32)
  | undefinedVariable (name : String)
  /-- An operation met values of types it is not defined on. -/
  | typeFault (mnemonic : String) (operands : String)
  | divisionByZero
  /-- A line of input is not a value of the expected type. -/
  | invalidInput (expected : Ty) (text : String)
  | endOfInput
  | stepLimit (limit : Nat)
  /-- A line of input is not text. -/
  | badEncoding
deriving DecidableEq, Repr

namespace Fault

/-- The wording of the fault. -/
def message : Fault → String
  | .stackUnderflow => "operand stack underflow"
  | .stackOverflow limit => s!"operand stack overflow: depth would exceed {limit}"
  | .unresolvedLabel id => s!"jump to undefined label {id.toNat}"
  | .undefinedVariable name => s!"variable '{name}' loaded before any value was saved to it"
  | .typeFault mnemonic operands => s!"'{mnemonic}' cannot operate on {operands}"
  | .divisionByZero => "integer division by zero"
  | .invalidInput expected text => s!"expected {expected.name} input, got '{text}'"
  | .endOfInput => "input ended before a value could be read"
  | .stepLimit limit => s!"step limit of {limit} instructions exceeded"
  | .badEncoding => "I/O error: stream did not contain valid UTF-8"

/-- An operation that is not defined on the type of its operand. -/
def ofOperand (mnemonic : String) (v : Value) : Fault :=
  .typeFault mnemonic v.ty.name

/-- An operation that is not defined on the types of its operands. -/
def ofOperands (mnemonic : String) (left right : Value) : Fault :=
  .typeFault mnemonic s!"{left.ty.name} and {right.ty.name}"

end Fault

end Cairn
