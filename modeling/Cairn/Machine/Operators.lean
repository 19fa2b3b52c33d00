import Cairn.Machine.Fault

/-!
# Cairn — operations on values

Arithmetic on integers wraps around and its division cuts off towards zero.
An integer that meets a floating point number is converted first; two integers
are converted only by an operation that is tagged as one on floating point
numbers.
-/

namespace Cairn

-- ---------------------------------------------------------------------------
-- Numbers
-- ---------------------------------------------------------------------------

/-- The nearest floating point number. -/
def intToDouble (i : Int64) : Double :=
  Double.ofInt i.toInt

/-- Two numbers of one kind. -/
inductive NumberPair where
  | ints (a b : Int64)
  | doubles (a b : Double)

/-- Two values as numbers of one kind. -/
def NumberPair.ofValues? : Value → Value → Option NumberPair
  | .int a, .int b => some (.ints a b)
  | .float a, .float b => some (.doubles a b)
  | .int a, .float b => some (.doubles (intToDouble a) b)
  | .float a, .int b => some (.doubles a (intToDouble b))
  | _, _ => none

-- ---------------------------------------------------------------------------
-- Arithmetic
-- ---------------------------------------------------------------------------

/-- The four operations of arithmetic. -/
inductive Arithmetic where
  | add
  | sub
  | mul
  | div
deriving DecidableEq, Repr

namespace Arithmetic

/-- On integers, modulo `2 ^ 64`. -/
def onInts (op : Arithmetic) (a b : Int64) : Except Fault Int64 :=
  match op with
  | .add => .ok (a + b)
  | .sub => .ok (a - b)
  | .mul => .ok (a * b)
  | .div => if b = 0 then .error .divisionByZero else .ok (a / b)

/-- On floating point numbers. -/
def onDoubles (op : Arithmetic) (a b : Double) : Double :=
  match op with
  | .add => a.add b
  | .sub => a.sub b
  | .mul => a.mul b
  | .div => a.div b

/-- On values, for an instruction with the given name and tag. -/
def apply (op : Arithmetic) (mnemonic : String) (tag : Tag) (left right : Value) :
    Except Fault Value :=
  match NumberPair.ofValues? left right with
  | none => .error (.ofOperands mnemonic left right)
  | some (.doubles a b) => .ok (.float (op.onDoubles a b))
  | some (.ints a b) =>
    if tag = .float then .ok (.float (op.onDoubles (intToDouble a) (intToDouble b)))
    else (op.onInts a b).map .int

end Arithmetic

-- ---------------------------------------------------------------------------
-- Operations of the machine
-- ---------------------------------------------------------------------------

namespace Instruction

/-- Compares two numbers. -/
def Binary.order (op : Binary) (onInts : Int64 → Int64 → Bool) (onDoubles : Double → Double → Bool)
    (left right : Value) : Except Fault Value :=
  match NumberPair.ofValues? left right with
  | some (.ints a b) => .ok (.bool (onInts a b))
  | some (.doubles a b) => .ok (.bool (onDoubles a b))
  | none => .error (.ofOperands op.mnemonic left right)

/-- The result of a binary operation. -/
def Binary.apply (op : Binary) (left right : Value) : Except Fault Value :=
  match op with
  | .add tag => Arithmetic.add.apply op.mnemonic tag left right
  | .sub tag => Arithmetic.sub.apply op.mnemonic tag left right
  | .mul tag => Arithmetic.mul.apply op.mnemonic tag left right
  | .div tag => Arithmetic.div.apply op.mnemonic tag left right
  | .mod =>
    match left, right with
    | .int a, .int b => if b = 0 then .error .divisionByZero else .ok (.int (a % b))
    | _, _ => .error (.ofOperands op.mnemonic left right)
  | .concat =>
    match left, right with
    | .str a, .str b => .ok (.str (a ++ b))
    | _, _ => .error (.ofOperands op.mnemonic left right)
  | .and =>
    match left, right with
    | .bool a, .bool b => .ok (.bool (a && b))
    | _, _ => .error (.ofOperands op.mnemonic left right)
  | .or =>
    match left, right with
    | .bool a, .bool b => .ok (.bool (a || b))
    | _, _ => .error (.ofOperands op.mnemonic left right)
  | .lt => op.order (fun a b => a < b) Double.lt left right
  | .gt => op.order (fun a b => b < a) (fun a b => b.lt a) left right
  | .eq =>
    match left, right with
    | .bool a, .bool b => .ok (.bool (a == b))
    | .str a, .str b => .ok (.bool (a == b))
    | _, _ => op.order (fun a b => a == b) Double.eq left right

/-- The result of a unary operation. -/
def Unary.apply (op : Unary) (v : Value) : Except Fault Value :=
  match op, v with
  | .uminus, .int i => .ok (.int (-i))
  | .uminus, .float x => .ok (.float x.neg)
  | .not, .bool b => .ok (.bool !b)
  | .itof, .int i => .ok (.float (intToDouble i))
  | _, _ => .error (.ofOperand op.mnemonic v)

end Instruction

end Cairn
