import Cairn.Number.Double
import Cairn.Source.Location
import Cairn.Ty

/-!
# Cairn — program trees

A program is a list of statements over expressions, and every node knows where
it stands in the source. The trees are parametric in what their literals hold:
the grammar builds trees over `Lexeme`s, whose numbers are still digits, and
reading those numbers turns them into trees over `Literal`s.

Parentheses stay in the tree, as `Expr.group`, so that locations can point at
them.
-/

namespace Cairn

-- ---------------------------------------------------------------------------
-- Operators
-- ---------------------------------------------------------------------------

/-- Operators in front of their operand. -/
inductive UnaryOp where
  | neg
  | not
deriving DecidableEq, Repr

/-- Operators between their operands. -/
inductive BinaryOp where
  | or
  | and
  | eq
  | ne
  | lt
  | gt
  | add
  | sub
  | concat
  | mul
  | div
  | mod
deriving DecidableEq, Repr

/-- How the operator is written. -/
def UnaryOp.text : UnaryOp → String
  | .neg => "-"
  | .not => "!"

namespace BinaryOp

/-- How the operator is written. -/
def text : BinaryOp → String
  | .or => "||"
  | .and => "&&"
  | .eq => "=="
  | .ne => "!="
  | .lt => "<"
  | .gt => ">"
  | .add => "+"
  | .sub => "-"
  | .concat => "."
  | .mul => "*"
  | .div => "/"
  | .mod => "%"

/-- How tightly the operator binds; all of them associate to the left. -/
def precedence : BinaryOp → Nat
  | .or => 0
  | .and => 1
  | .eq | .ne => 2
  | .lt | .gt => 3
  | .add | .sub | .concat => 4
  | .mul | .div | .mod => 5

/-- All operators, in the order in which they are tried. -/
def all : List BinaryOp :=
  [.or, .and, .eq, .ne, .lt, .gt, .add, .sub, .concat, .mul, .div, .mod]

end BinaryOp

-- ---------------------------------------------------------------------------
-- Literals
-- ---------------------------------------------------------------------------

/-- A literal as it is written: numbers are kept as digits. -/
inductive Lexeme where
  | int (digits : String)
  | float (digits : String)
  | bool (value : Bool)
  | str (text : String)
deriving DecidableEq, Repr

/-- A literal as a value. -/
inductive Literal where
  | int (value : Int64)
  | float (value : Double)
  | bool (value : Bool)
  | str (text : String)
deriving DecidableEq, Repr

-- ---------------------------------------------------------------------------
-- Expressions and statements
-- ---------------------------------------------------------------------------

/-- A name where it stands in the source. -/
structure Ident where
  name : String
  loc : Location
deriving DecidableEq, Repr

/-- Expressions over literals of type `L`. -/
inductive Expr (L : Type) where
  | literal (loc : Location) (value : L)
  | name (loc : Location) (name : String)
  | group (loc : Location) (inner : Expr L)
  | unary (loc : Location) (op : UnaryOp) (operand : Expr L)
  | binary (loc : Location) (op : BinaryOp) (left right : Expr L)
  | assign (loc : Location) (target : Ident) (value : Expr L)
  | ternary (loc : Location) (cond onTrue onFalse : Expr L)
deriving DecidableEq, Repr

/-- Where the expression stands. -/
def Expr.loc {L : Type} : Expr L → Location
  | .literal loc _ => loc
  | .name loc _ => loc
  | .group loc _ => loc
  | .unary loc _ _ => loc
  | .binary loc _ _ _ => loc
  | .assign loc _ _ => loc
  | .ternary loc _ _ _ => loc

/-- Statements over literals of type `L`. -/
inductive Stmt (L : Type) where
  /-- A lone semicolon. -/
  | empty (loc : Location)
  | declaration (loc : Location) (ty : Ty) (names : List Ident)
  /-- An expression whose value is dropped. -/
  | expression (loc : Location) (expr : Expr L)
  | read (loc : Location) (names : List Ident)
  | write (loc : Location) (exprs : List (Expr L))
  | block (loc : Location) (body : List (Stmt L))
  | ifThen (loc : Location) (cond : Expr L) (onTrue : Stmt L)
  | ifElse (loc : Location) (cond : Expr L) (onTrue onFalse : Stmt L)
  | whileDo (loc : Location) (cond : Expr L) (body : Stmt L)
  | doWhile (loc : Location) (body : Stmt L) (cond : Expr L)
deriving Repr

/-- Where the statement stands. -/
def Stmt.loc {L : Type} : Stmt L → Location
  | .empty loc => loc
  | .declaration loc _ _ => loc
  | .expression loc _ => loc
  | .read loc _ => loc
  | .write loc _ => loc
  | .block loc _ => loc
  | .ifThen loc _ _ => loc
  | .ifElse loc _ _ _ => loc
  | .whileDo loc _ _ => loc
  | .doWhile loc _ _ => loc

/-- A whole program. -/
abbrev Program := List (Stmt Literal)

end Cairn
