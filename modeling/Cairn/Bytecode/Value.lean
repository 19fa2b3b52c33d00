import Cairn.Number.Shortest
import Cairn.Ty

/-!
# Cairn — values

The values that a program computes with, and the tags that name their types in
bytecode. A value has two texts: what `print` writes, and the operand that
denotes it exactly in a listing.
-/

namespace Cairn

-- ---------------------------------------------------------------------------
-- Tags
-- ---------------------------------------------------------------------------

/-- The type of a value, as bytecode names it. -/
inductive Tag where
  | int
  | float
  | bool
  | string
deriving DecidableEq, Repr

namespace Tag

/-- The letter of the tag. -/
def letter : Tag → String
  | .int => "I"
  | .float => "F"
  | .bool => "B"
  | .string => "S"

/-- The tag with the given letter. -/
def ofLetter? (text : String) : Option Tag :=
  [Tag.int, .float, .bool, .string].find? fun tag => tag.letter == text

/-- The type that the tag stands for. -/
def ty : Tag → Ty
  | .int => .int
  | .float => .float
  | .bool => .bool
  | .string => .string

end Tag

/-- The tag of a type; the mark of an error has none. -/
def Ty.tag? : Ty → Option Tag
  | .int => some .int
  | .float => some .float
  | .bool => some .bool
  | .string => some .string
  | .error => none

-- ---------------------------------------------------------------------------
-- Values
-- ---------------------------------------------------------------------------

/-- A value. -/
inductive Value where
  | int (value : Int64)
  | float (value : Double)
  | bool (value : Bool)
  | str (value : String)
deriving DecidableEq, Repr

/-- The value that a declared variable starts with. -/
def Ty.zero? : Ty → Option Value
  | .int => some (.int 0)
  | .float => some (.float .zero)
  | .bool => some (.bool false)
  | .string => some (.str "")
  | .error => none

/-- The spelling of a truth value. -/
def boolText (b : Bool) : String :=
  if b then "true" else "false"

/-- A character of a text in quotes. -/
def quoteChar (c : Char) : List Char :=
  if c = '"' then ['\\', '"']
  else if c = '\\' then ['\\', '\\']
  else if c = '\n' then ['\\', 'n']
  else if c = '\r' then ['\\', 'r']
  else if c = '\t' then ['\\', 't']
  else [c]

/-- A text in quotes. -/
def quoted (s : String) : String :=
  String.ofList ('"' :: s.toList.flatMap quoteChar ++ ['"'])

namespace Value

/-- The tag of the value's type. -/
def tag : Value → Tag
  | .int _ => .int
  | .float _ => .float
  | .bool _ => .bool
  | .str _ => .string

/-- The type of the value. -/
def ty (v : Value) : Ty :=
  v.tag.ty

/-- The truth value, if it is one. -/
def bool? : Value → Option Bool
  | .bool b => some b
  | _ => none

/-- What `print` writes. -/
def text : Value → String
  | .int i => signedText i
  | .float x => Layout.plain.double x
  | .bool b => boolText b
  | .str s => s

/-- The operand that denotes the value: its tag and its exact text. -/
def operand (v : Value) : String :=
  v.tag.letter ++ " " ++
    match v with
    | .int i => signedText i
    | .float x => Layout.exact.double x
    | .bool b => boolText b
    | .str s => quoted s

/-- Equality of what the values stand for. Floating point numbers are compared
as numbers: zeros of both signs agree, and what is not a number agrees with
nothing. -/
def agrees : Value → Value → Bool
  | .int a, .int b => a == b
  | .float a, .float b => a.eq b
  | .bool a, .bool b => a == b
  | .str a, .str b => a == b
  | _, _ => false

end Value

end Cairn
