import Cairn.Source.Location

/-!
# Cairn — why a text is not a program

The text does not follow the grammar, or a number in it has no value of its
type, or it nests more deeply than the limit allows.
-/

namespace Cairn

/-- What is wrong with the text. -/
inductive ParseFault where
  /-- The grammar asks for something else than what stands there. -/
  | unexpected (expected found : String)
  /-- A number that does not fit its type. -/
  | badNumber (text : String)
  /-- Nesting that goes past the limit. -/
  | tooDeep (depth limit : Nat)
deriving DecidableEq, Repr

namespace ParseFault

/-- The wording of the fault. -/
def message : ParseFault → String
  | .unexpected expected found => s!"expected {expected}, found {found}"
  | .badNumber text => s!"invalid number literal '{text}'"
  | .tooDeep depth limit => s!"nesting depth {depth} exceeds maximum of {limit} levels"

/-- The code by which the fault can be looked up. -/
def code : ParseFault → String
  | .unexpected .. => "P001"
  | .badNumber _ => "P002"
  | .tooDeep .. => "P003"

/-- Advice on how to mend the fault. -/
def help : ParseFault → Option String
  | .unexpected .. => none
  | .badNumber _ => some "integers must fit in 64 signed bits and floats must be finite"
  | .tooDeep .. => some "Reduce nesting or move sub-expressions into variables"

end ParseFault

/-- A fault and where it was found. -/
structure ParseError where
  fault : ParseFault
  loc : Location
deriving DecidableEq, Repr

/-- The message behind the line and column. -/
def ParseError.text (e : ParseError) : String :=
  s!"{e.loc.text} - {e.fault.message}"

end Cairn
