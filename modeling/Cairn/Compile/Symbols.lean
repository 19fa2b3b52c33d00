import Cairn.Bindings
import Cairn.Ty

/-!
# Cairn — declared names

All names of a program live in one flat table. A name keeps the type of its
first declaration.
-/

namespace Cairn

/-- The declared names and their types. -/
abbrev Symbols := Bindings Ty

/-- Declares a name, or gives the type that it already has. -/
def Symbols.declare (symbols : Symbols) (name : String) (ty : Ty) : Except Ty Symbols :=
  match symbols.find? name with
  | some existing => .error existing
  | none => .ok (symbols.insert name ty)

end Cairn
