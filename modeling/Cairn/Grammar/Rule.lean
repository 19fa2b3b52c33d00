import Cairn.Tree.Basic

/-!
# Cairn — the rules of the grammar, as names

A syntax error lists what could have stood at the point where reading failed.
The grammar reports that as rules, and this module turns rules into the words
a message uses: the rules in the order in which the grammar states them, each
mapped to the concept that it stands for.
-/

namespace Cairn

/-- The reserved words. -/
inductive Keyword where
  | int
  | float
  | bool
  | string
  | read
  | write
  | «if»
  | «else»
  | «while»
  | «do»
  | «true»
  | «false»
deriving DecidableEq, Repr

namespace Keyword

/-- How the word is written. -/
def text : Keyword → String
  | .int => "int"
  | .float => "float"
  | .bool => "bool"
  | .string => "string"
  | .read => "read"
  | .write => "write"
  | .if => "if"
  | .else => "else"
  | .while => "while"
  | .do => "do"
  | .true => "true"
  | .false => "false"

/-- All reserved words, in the order in which the grammar states them. -/
def all : List Keyword :=
  [.int, .float, .bool, .string, .read, .write, .if, .else, .while, .do, .true, .false]

end Keyword

/-- The rules that can be named as expected. -/
inductive Rule where
  | endOfInput
  | keyword (word : Keyword)
  | ident
  | program
  | empty
  | block
  | declaration
  | typeName
  | read
  | write
  | ifStmt
  | whileDo
  | doWhile
  | expression
  | expr
  | assignment
  | assignOp
  | ternary
  | binary
  | unary (op : UnaryOp)
  | operator (op : BinaryOp)
  | group
  | float
  | int
  | bool
  | string
deriving DecidableEq, Repr

namespace Rule

/-- All rules: the end of input, then the rules as the grammar states them. -/
def all : List Rule :=
  .endOfInput :: Keyword.all.map .keyword ++
    [.ident, .program, .empty, .block, .declaration, .typeName, .read, .write, .ifStmt, .whileDo,
      .doWhile, .expression, .expr, .assignment, .assignOp, .ternary, .binary, .unary .neg,
      .unary .not] ++
    BinaryOp.all.map .operator ++ [.group, .float, .int, .bool, .string]

/-- The words for what a rule stands for. -/
def concept : Rule → String
  | .int | .float | .bool | .string => "literal"
  | .ident => "identifier"
  | .typeName => "type"
  | .expr | .group | .unary _ | .binary => "expression"
  | .operator _ => "operator"
  | .assignOp => "'='"
  | .keyword .else => "'else'"
  | .keyword .while => "'while'"
  | .endOfInput => "end of input"
  | _ => "statement"

/-- Concepts as a list with `or` in front of the last one. -/
def listing : List String → String
  | [] => "something else"
  | [one] => one
  | many => ", ".intercalate many.dropLast ++ " or " ++ many.getLastD ""

/-- What is expected where the given rules have failed. -/
def expected (rules : List Rule) : String :=
  listing ((all.filter rules.contains).map concept).eraseDups

end Rule

end Cairn
