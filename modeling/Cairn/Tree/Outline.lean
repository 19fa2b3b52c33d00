import Cairn.Number.Shortest
import Cairn.Tree.Basic

/-!
# Cairn — outlines of program trees

An outline lists the nodes of a program in the order in which they start, one
line each: how deep the node lies, what it is and where it stands.
-/

namespace Cairn

-- ---------------------------------------------------------------------------
-- Literals
-- ---------------------------------------------------------------------------

/-- The digits of a code point in base sixteen. -/
def hexDigits (n : Nat) : List Char :=
  Nat.toDigits 16 n

/-- A character inside a quoted text: quotes, backslashes and control
characters are escaped. -/
def escapeChar (c : Char) : List Char :=
  if c = '"' then ['\\', '"']
  else if c = '\\' then ['\\', '\\']
  else if c = '\n' then ['\\', 'n']
  else if c = '\r' then ['\\', 'r']
  else if c = '\t' then ['\\', 't']
  else if c = '\x00' then ['\\', '0']
  else if c.toNat < 0x20 ∨ c.toNat = 0x7f then
    ['\\', 'u', '\x7b'] ++ hexDigits c.toNat ++ ['\x7d']
  else [c]

namespace Literal

/-- The kind of the literal with its value. -/
def text : Literal → String
  | .int value => "Int(" ++ signedText value ++ ")"
  | .float value => "Float(" ++ Layout.exact.double value ++ ")"
  | .bool value => if value then "Bool(true)" else "Bool(false)"
  | .str text => "Str(\"" ++ String.ofList (text.toList.flatMap escapeChar) ++ "\")"

end Literal

-- ---------------------------------------------------------------------------
-- Nodes
-- ---------------------------------------------------------------------------

/-- One line of an outline. -/
def outlineLine (depth : Nat) (head : String) (loc : Location) : String :=
  s!"{depth} {head} [{loc.span.start}..{loc.span.stop} {loc.text}]"

/-- The line of a name. -/
def Ident.outline (depth : Nat) (x : Ident) : String :=
  outlineLine depth ("name " ++ x.name) x.loc

namespace Expr

/-- The lines of an expression at the given depth. -/
def outline (depth : Nat) : Expr Literal → List String
  | .literal loc value => [outlineLine depth ("literal " ++ value.text) loc]
  | .name loc x => [outlineLine depth ("ident " ++ x) loc]
  | .group loc inner => outlineLine depth "grouping" loc :: inner.outline (depth + 1)
  | .unary loc op operand =>
    outlineLine depth ("unary " ++ op.text) loc :: operand.outline (depth + 1)
  | .binary loc op left right =>
    outlineLine depth ("binary " ++ op.text) loc ::
      (left.outline (depth + 1) ++ right.outline (depth + 1))
  | .assign loc target value =>
    outlineLine depth "assign" loc :: target.outline (depth + 1) :: value.outline (depth + 1)
  | .ternary loc cond onTrue onFalse =>
    outlineLine depth "ternary" loc ::
      (cond.outline (depth + 1) ++ onTrue.outline (depth + 1) ++ onFalse.outline (depth + 1))

end Expr

namespace Stmt

mutual

/-- The lines of a statement at the given depth. -/
def outline (depth : Nat) : Stmt Literal → List String
  | .empty loc => [outlineLine depth "empty" loc]
  | .declaration loc ty names =>
    outlineLine depth ("declaration " ++ ty.name) loc :: names.map (·.outline (depth + 1))
  | .expression loc expr => outlineLine depth "expression" loc :: expr.outline (depth + 1)
  | .read loc names => outlineLine depth "read" loc :: names.map (·.outline (depth + 1))
  | .write loc exprs => outlineLine depth "write" loc :: exprs.flatMap (·.outline (depth + 1))
  | .block loc body => outlineLine depth "block" loc :: outlineAll (depth + 1) body
  | .ifThen loc cond onTrue =>
    outlineLine depth "if" loc :: (cond.outline (depth + 1) ++ onTrue.outline (depth + 1))
  | .ifElse loc cond onTrue onFalse =>
    outlineLine depth "if-else" loc ::
      (cond.outline (depth + 1) ++ onTrue.outline (depth + 1) ++ onFalse.outline (depth + 1))
  | .whileDo loc cond body =>
    outlineLine depth "while" loc :: (cond.outline (depth + 1) ++ body.outline (depth + 1))
  | .doWhile loc body cond =>
    outlineLine depth "do-while" loc :: (body.outline (depth + 1) ++ cond.outline (depth + 1))

/-- The lines of statements at the given depth. -/
def outlineAll (depth : Nat) : List (Stmt Literal) → List String
  | [] => []
  | s :: rest => s.outline depth ++ outlineAll depth rest

end

end Stmt

end Cairn
