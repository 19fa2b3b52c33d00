import Cairn.Compile.Diagnostic
import Cairn.Tree.Basic

/-!
# Cairn — types of operators

Arithmetic and order take numbers of either kind, and an integer operand next
to a floating point one is converted. Equality takes two numbers or two values
of one type. The remainder is for integers, concatenation for texts, and the
connectives for truth values.
-/

namespace Cairn

/-- Which operand of a binary operator is converted to floating point. -/
inductive Widening where
  | none
  | left
  | right
deriving DecidableEq, Repr

/-- The operand to convert when two numbers meet. -/
def Widening.ofTypes : Ty → Ty → Widening
  | .int, .float => .left
  | .float, .int => .right
  | _, _ => .none

namespace BinaryOp

/-- The first of two types that is not accepted. -/
def firstOutside (accepts : Ty → Bool) (left right : Ty) : Option Ty :=
  if !accepts left then some left
  else if !accepts right then some right
  else none

/-- A rule that accepts operands one by one. -/
def checkEach (op : BinaryOp) (accepts : Ty → Bool) (left right : Ty) (result : Ty × Widening) :
    Except TypeFault (Ty × Widening) :=
  match firstOutside accepts left right with
  | some ty => .error (.unsupportedOperand op.text ty)
  | none => .ok result

/-- The type of the result and the operand to convert. -/
def check (op : BinaryOp) (left right : Ty) : Except TypeFault (Ty × Widening) :=
  match op with
  | .add | .sub | .mul | .div =>
    let result := if left = .int ∧ right = .int then Ty.int else Ty.float
    op.checkEach Ty.isNumeric left right (result, .ofTypes left right)
  | .mod => op.checkEach (· == .int) left right (.int, .none)
  | .concat => op.checkEach (· == .string) left right (.string, .none)
  | .lt | .gt => op.checkEach Ty.isNumeric left right (.bool, .ofTypes left right)
  | .eq | .ne =>
    if left.isNumeric && right.isNumeric then .ok (.bool, .ofTypes left right)
    else if left = right then .ok (.bool, .none)
    else .error (.incompatibleOperands op.text left right)
  | .and | .or => op.checkEach (· == .bool) left right (.bool, .none)

end BinaryOp

/-- The type of the result of a unary operator. -/
def UnaryOp.check (op : UnaryOp) (operand : Ty) : Except TypeFault Ty :=
  match op, operand with
  | .neg, .int => .ok .int
  | .neg, .float => .ok .float
  | .not, .bool => .ok .bool
  | _, ty => .error (.unsupportedOperand op.text ty)

end Cairn
