/-!
# Cairn — static types

Four types classify the values of a program. A fifth one marks an expression
in which an error was reported; it keeps one mistake from being reported again
at every enclosing operator.
-/

namespace Cairn

/-- The type of an expression or of a variable. -/
inductive Ty where
  | int
  | float
  | bool
  | string
  | error
deriving DecidableEq, Repr

namespace Ty

/-- The name used in declarations and messages. -/
def name : Ty → String
  | .int => "int"
  | .float => "float"
  | .bool => "bool"
  | .string => "string"
  | .error => "<error>"

/-- The types that arithmetic is defined on. -/
def isNumeric : Ty → Bool
  | .int | .float => true
  | _ => false

/-- The mark of a reported error. -/
def isError : Ty → Bool
  | .error => true
  | _ => false

/-- The type with the given name. -/
def ofName? (name : String) : Option Ty :=
  [Ty.int, .float, .bool, .string, .error].find? fun ty => ty.name == name

end Ty

end Cairn
