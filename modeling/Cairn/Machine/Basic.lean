import Cairn.Bindings
import Cairn.Machine.Input
import Cairn.Machine.Operators
import Cairn.Machine.Stack

/-!
# Cairn — the machine

A machine executes code one instruction at a time. An instruction that fails
leaves the machine at that instruction and counts as a step; operands that it
took off the stack, and input that it read, are gone.

A machine need not come to an end, so running is bounded by the number of
instructions to execute.

## Main definitions

* `Machine.step`   — executes one instruction.
* `Machine.runFor` — executes up to a given number of instructions.
-/

namespace Cairn

/-- The limits of a run, and whether reading asks for input. -/
structure Options where
  prompt : Bool := false
  maxStack : Nat := 1024
  maxSteps : Option Nat := none
deriving DecidableEq, Repr

/-- The state of a run. -/
structure Machine where
  code : Code
  options : Options
  /-- The address of the next instruction. -/
  ip : Nat
  /-- How many instructions were executed, failed ones included. -/
  steps : Nat
  stack : Stack Value
  store : Bindings Value
  /-- The bytes still to be read. -/
  input : List UInt8
  /-- All that was written. -/
  output : String

namespace Machine

/-- A machine that has not started. -/
def start (code : Code) (options : Options) (input : List UInt8) : Machine where
  code := code
  options := options
  ip := 0
  steps := 0
  stack := .empty options.maxStack
  store := .empty
  input := input
  output := ""

-- ---------------------------------------------------------------------------
-- Parts of an instruction
-- ---------------------------------------------------------------------------

/-- An action on the machine, which may fail and then keeps what it did. -/
abbrev Action := EStateM Fault Machine

/-- Pushes a value. -/
def push (v : Value) : Action Unit := do
  let m ← get
  match m.stack.push v with
  | .ok stack => set { m with stack := stack }
  | .error fault => throw fault

/-- Pops a value. -/
def pop : Action Value := do
  let m ← get
  match m.stack.pop with
  | .ok (v, stack) =>
    set { m with stack := stack }
    return v
  | .error fault => throw fault

/-- Pops several values, in the order in which they were pushed. -/
def popMany (n : Nat) : Action (List Value) := do
  let m ← get
  match m.stack.popMany n with
  | .ok (vs, stack) =>
    set { m with stack := stack }
    return vs
  | .error fault => throw fault

/-- Writes a text. -/
def write (s : String) : Action Unit :=
  modify fun m => { m with output := m.output ++ s }

/-- The address behind a label. -/
def resolve (id : UInt32) : Action Nat := do
  match Code.labelIndex? (← get).code id with
  | some index => return index + 1
  | none => throw (.unresolvedLabel id)

/-- Reads a line of input. -/
def readLine : Action (List Char) := do
  let m ← get
  if m.input.isEmpty then throw .endOfInput
  let line := takeLine m.input
  set { m with input := line.2 }
  match ofUtf8? line.1 with
  | some text => return chomp text.toList
  | none => throw .badEncoding

/-- Reads a value, asking for it first if that is wanted. -/
def readValue (tag : Tag) : Action Value := do
  if (← get).options.prompt then write s!"Input {tag.ty.name}:\n"
  let line ← readLine
  match Value.ofLine? tag line with
  | some v => return v
  | none => throw (.invalidInput tag.ty (String.ofList line))

-- ---------------------------------------------------------------------------
-- Instructions
-- ---------------------------------------------------------------------------

/-- Executes an instruction whose successor is at `next`, and gives the address
to go on at. -/
def execute (next : Nat) : Instruction → Action Nat
  | .push v => do
    push v
    return next
  | .pop => do
    let _ ← pop
    return next
  | .load name => do
    match (← get).store.find? name with
    | some v => push v
    | none => throw (.undefinedVariable name)
    return next
  | .save name => do
    let v ← pop
    modify fun m => { m with store := m.store.insert name v }
    return next
  | .label _ => return next
  | .jmp id => resolve id
  | .fjmp id => do
    let v ← pop
    match v with
    | .bool true => return next
    | .bool false => resolve id
    | v => throw (.ofOperand "fjmp" v)
  | .print count => do
    let vs ← popMany count.toNat
    write (String.join (vs.map Value.text) ++ "\n")
    return next
  | .read tag => do
    let v ← readValue tag
    push v
    return next
  | .unary op => do
    let v ← pop
    match op.apply v with
    | .ok v => push v
    | .error fault => throw fault
    return next
  | .binary op => do
    let right ← pop
    let left ← pop
    match op.apply left right with
    | .ok v => push v
    | .error fault => throw fault
    return next

/-- What became of a step. -/
inductive StepResult where
  | executed
  /-- There was no instruction left. -/
  | halted
  | failed (fault : Fault)
deriving DecidableEq, Repr

/-- Whether no further step is allowed. -/
def limitReached (m : Machine) : Option Nat :=
  m.options.maxSteps.filter (· ≤ m.steps)

/-- Executes the next instruction. -/
def step (m : Machine) : Machine × StepResult :=
  match m.code[m.ip]? with
  | none => (m, .halted)
  | some i =>
    match m.limitReached with
    | some limit => (m, .failed (.stepLimit limit))
    | none =>
      match (execute (m.ip + 1) i).run { m with steps := m.steps + 1 } with
      | .ok next m => ({ m with ip := next }, .executed)
      | .error fault m => (m, .failed fault)

-- ---------------------------------------------------------------------------
-- Runs
-- ---------------------------------------------------------------------------

/-- How a run ends. -/
inductive Ending where
  | halted
  | failed (fault : Fault)
deriving DecidableEq, Repr, Inhabited

/-- Executes up to `n` instructions. There is no ending if the machine could go
on after them. -/
def runFor : Nat → Machine → Machine × Option Ending
  | 0, m => (m, none)
  | n + 1, m =>
    match m.step with
    | (m, .executed) => m.runFor n
    | (m, .halted) => (m, some .halted)
    | (m, .failed fault) => (m, some (.failed fault))

end Machine

end Cairn
