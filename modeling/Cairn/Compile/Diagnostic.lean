import Cairn.Source.Location
import Cairn.Ty

/-!
# Cairn — diagnostics

What the checker finds wrong with a program that parses. A diagnostic never
ends the check; all of them are collected in the order in which they are found.
-/

namespace Cairn

/-- What is wrong. -/
inductive TypeFault where
  | undeclared (name : String)
  | redeclared (name : String)
  /-- An operand that the operator accepts in no combination. -/
  | unsupportedOperand (op : String) (ty : Ty)
  /-- Operands that the operator does not accept together. -/
  | incompatibleOperands (op : String) (left right : Ty)
  | assignmentMismatch (name : String) (target value : Ty)
  | conditionNotBool (found : Ty)
  | branchMismatch (onTrue onFalse : Ty)
deriving DecidableEq, Repr

namespace TypeFault

/-- The wording of the fault. -/
def message : TypeFault → String
  | .undeclared name => s!"Variable '{name}' was not declared."
  | .redeclared name => s!"Variable '{name}' was already declared."
  | .unsupportedOperand op ty => s!"Operator '{op}' does not support type {ty.name}."
  | .incompatibleOperands op left right =>
    s!"Operator '{op}' cannot be applied to {left.name} and {right.name}."
  | .assignmentMismatch name target value =>
    s!"Variable '{name}' type is {target.name}, but the assigned value is {value.name}."
  | .conditionNotBool found => s!"Condition expression expected bool, got {found.name}."
  | .branchMismatch onTrue onFalse =>
    s!"Ternary branches must have matching types, got {onTrue.name} and {onFalse.name}."

/-- The code by which the fault can be looked up. -/
def code : TypeFault → String
  | .undeclared _ => "E001"
  | .redeclared _ => "E002"
  | .unsupportedOperand .. => "E003"
  | .incompatibleOperands .. => "E004"
  | .assignmentMismatch .. => "E005"
  | .conditionNotBool _ => "E006"
  | .branchMismatch .. => "E007"

/-- Advice on how to mend the fault. -/
def help : TypeFault → Option String
  | .undeclared _ => some "Declare the variable before using it, e.g. `int x;`"
  | .assignmentMismatch .. =>
    some "Only int values are converted implicitly, and only into float variables"
  | .incompatibleOperands .. => some "Both operands must be numbers, both bool, or both string"
  | _ => none

end TypeFault

/-- A fault and where it was found. -/
structure Diagnostic where
  loc : Location
  fault : TypeFault
deriving DecidableEq, Repr

/-- The message behind the line and column. -/
def Diagnostic.text (d : Diagnostic) : String :=
  s!"{d.loc.text} - {d.fault.message}"

end Cairn
