import Cairn.Bytecode.Value

/-!
# Cairn — instructions

A piece of bytecode is a list of instructions for a machine with an operand
stack and named variables. Jumps name a label, and a label is an instruction
that does nothing but mark a place.
-/

namespace Cairn

namespace Instruction

/-- Operations on the topmost value. -/
inductive Unary where
  /-- The opposite number. -/
  | uminus
  /-- The opposite truth value. -/
  | not
  /-- An integer as a floating point number. -/
  | itof
deriving DecidableEq, Repr

/-- Operations on the two topmost values, of which the right operand is on
top. -/
inductive Binary where
  | add (tag : Tag)
  | sub (tag : Tag)
  | mul (tag : Tag)
  | div (tag : Tag)
  | mod
  | concat
  | and
  | or
  | gt
  | lt
  | eq
deriving DecidableEq, Repr

end Instruction

/-- One step of a program. -/
inductive Instruction where
  /-- Pushes a constant. -/
  | push (value : Value)
  /-- Drops the topmost value. -/
  | pop
  /-- Pushes the value of a variable. -/
  | load (name : String)
  /-- Pops a value into a variable. -/
  | save (name : String)
  /-- Marks the target of jumps. -/
  | label (id : UInt32)
  /-- Goes to a label. -/
  | jmp (id : UInt32)
  /-- Pops a truth value and goes to a label if it is false. -/
  | fjmp (id : UInt32)
  /-- Pops values and writes them, first pushed first, and a line feed. -/
  | print (count : UInt64)
  /-- Reads a line of input and pushes it as a value of the tagged type. -/
  | read (tag : Tag)
  /-- Replaces the topmost value. -/
  | unary (op : Instruction.Unary)
  /-- Replaces the two topmost values. -/
  | binary (op : Instruction.Binary)
deriving DecidableEq, Repr

/-- A piece of bytecode. -/
abbrev Code := List Instruction

namespace Instruction

/-- The name of a unary operation. -/
def Unary.mnemonic : Unary → String
  | .uminus => "uminus"
  | .not => "not"
  | .itof => "itof"

/-- The name of a binary operation. -/
def Binary.mnemonic : Binary → String
  | .add _ => "add"
  | .sub _ => "sub"
  | .mul _ => "mul"
  | .div _ => "div"
  | .mod => "mod"
  | .concat => "concat"
  | .and => "and"
  | .or => "or"
  | .gt => "gt"
  | .lt => "lt"
  | .eq => "eq"

/-- The tag that a binary operation carries. -/
def Binary.tag? : Binary → Option Tag
  | .add tag | .sub tag | .mul tag | .div tag => some tag
  | _ => none

/-- The name of an instruction. -/
def mnemonic : Instruction → String
  | .push _ => "push"
  | .pop => "pop"
  | .load _ => "load"
  | .save _ => "save"
  | .label _ => "label"
  | .jmp _ => "jmp"
  | .fjmp _ => "fjmp"
  | .print _ => "print"
  | .read _ => "read"
  | .unary op => op.mnemonic
  | .binary op => op.mnemonic

/-- The label that a jump goes to. -/
def target? : Instruction → Option UInt32
  | .jmp id => some id
  | .fjmp id => some id
  | _ => none

/-- Equality up to that of the pushed values. -/
def agrees : Instruction → Instruction → Bool
  | .push v, .push w => v.agrees w
  | i, j => i == j

end Instruction

namespace Code

/-- Equality instruction by instruction. -/
def agrees : Code → Code → Bool
  | [], [] => true
  | i :: c, j :: d => i.agrees j && agrees c d
  | _, _ => false

/-- Where a label first occurs. -/
def labelIndex? (code : Code) (id : UInt32) : Option Nat :=
  code.findIdx? (· == .label id)

/-- The labels in the order of their first occurrence. -/
def labels (code : Code) : List UInt32 :=
  (code.filterMap fun
    | .label id => some id
    | _ => none).eraseDups

end Code

end Cairn
