import Cairn.Grammar.Parser

/-!
# Cairn — the grammar of expressions

An expression is an assignment or a choice between two expressions, and both
bottom out in a chain of operands and binary operators. The grammar reads a
chain from left to right without looking at precedence; `Expr.attach` then puts
each operator at its place in the tree.

The parser is indexed by a bound on how deeply expressions may lie within each
other. Every level starts with a character of its own, so the length of the
text is always enough.
-/

namespace Cairn

-- ---------------------------------------------------------------------------
-- Chains of operators
-- ---------------------------------------------------------------------------

namespace Expr

variable {L : Type}

/-- Adds an operator and its right operand behind an expression. It takes as
its left operand the longest stretch at the end whose operators bind at least
as tightly. -/
def attach (op : BinaryOp) (right : Expr L) : Expr L → Expr L
  | .binary loc op' l r =>
    if op'.precedence < op.precedence then
      let r' := attach op right r
      .binary (l.loc.through r'.loc) op' l r'
    else
      .binary (loc.through right.loc) op (.binary loc op' l r) right
  | e => .binary (e.loc.through right.loc) op e right

/-- The tree of a chain of operands. -/
def ofChain (first : Expr L) (more : List (BinaryOp × Expr L)) : Expr L :=
  more.foldl (fun e next => attach next.1 next.2 e) first

/-- An operand behind its unary operators. -/
def ofOperand (ops : List (UnaryOp × Location)) (operand : Expr L) : Expr L :=
  ops.foldr (fun op e => .unary (op.2.through e.loc) op.1 e) operand

end Expr

namespace Grammar

-- ---------------------------------------------------------------------------
-- Words
-- ---------------------------------------------------------------------------

/-- A fixed sequence of characters, which is no rule of its own. -/
def symbol (text : String) : Parser (List Char) :=
  .word (Word.symbol text)

/-- A reserved word. -/
def keyword (k : Keyword) : Parser (List Char) :=
  .rule (.keyword k) (.word (Word.keyword k))

/-- A name. -/
def ident : Parser Ident :=
  .rule .ident (.located ((fun cs loc => ⟨String.ofList cs, loc⟩) <$> .word Word.ident))

/-- A unary operator, and where it stands. -/
def unaryOp (op : UnaryOp) : Parser (UnaryOp × Location) :=
  .rule (.unary op) (.located ((fun _ loc => (op, loc)) <$> .word (Word.unaryOp op)))

/-- A binary operator. -/
def binaryOp (op : BinaryOp) : Parser BinaryOp :=
  .rule (.operator op) ((fun _ => op) <$> symbol op.text)

/-- Any binary operator. -/
def anyBinaryOp : Parser BinaryOp :=
  BinaryOp.all.foldr (fun op others => binaryOp op <|> others) .fail

-- ---------------------------------------------------------------------------
-- Literals
-- ---------------------------------------------------------------------------

/-- A literal, and where it stands. -/
def literal (r : Rule) (value : Parser Lexeme) : Parser (Expr Lexeme) :=
  .rule r (.located ((fun value loc => .literal loc value) <$> value))

/-- A number with a point. -/
def float : Parser (Expr Lexeme) :=
  literal .float ((fun cs => .float (String.ofList cs)) <$> .word Word.float)

/-- A whole number. -/
def int : Parser (Expr Lexeme) :=
  literal .int ((fun cs => .int (String.ofList cs)) <$> .word Word.int)

/-- A text in quotes. -/
def string : Parser (Expr Lexeme) :=
  literal .string
    ((fun cs => .str (String.ofList (Word.unescape (cs.drop 1).dropLast))) <$> .word Word.string)

/-- A truth value. -/
def bool : Parser (Expr Lexeme) :=
  literal .bool ((fun _ => .bool true) <$> keyword .true <|> (fun _ => .bool false) <$> keyword .false)

/-- A name that stands for its value. -/
def name : Parser (Expr Lexeme) :=
  (fun x : Ident => .name x.loc x.name) <$> ident

-- ---------------------------------------------------------------------------
-- Expressions
-- ---------------------------------------------------------------------------

/-- An expression in parentheses. -/
def group (expr : Parser (Expr Lexeme)) : Parser (Expr Lexeme) :=
  .rule .group
    (.located ((fun inner loc => .group loc inner) <$> (symbol "(" *> expr) <* symbol ")"))

/-- What operators apply to. -/
def primary (expr : Parser (Expr Lexeme)) : Parser (Expr Lexeme) :=
  float <|> int <|> string <|> bool <|> name <|> group expr

/-- A primary expression behind any number of unary operators. -/
def operand (expr : Parser (Expr Lexeme)) : Parser (Expr Lexeme) :=
  Expr.ofOperand <$> .many (unaryOp .neg <|> unaryOp .not) <*> primary expr

/-- Operands with binary operators between them. -/
def binary (expr : Parser (Expr Lexeme)) : Parser (Expr Lexeme) :=
  .rule .binary
    (Expr.ofChain <$> operand expr <*> .many (Prod.mk <$> anyBinaryOp <*> operand expr))

/-- A chain of operands, or a choice between two expressions that depends on
one. -/
def ternary (expr : Parser (Expr Lexeme)) : Parser (Expr Lexeme) :=
  .rule .ternary
    (.located
      ((fun cond branches loc =>
          match branches with
          | none => cond
          | some (onTrue, onFalse) => .ternary loc cond onTrue onFalse) <$>
        binary expr <*>
        .optional (Prod.mk <$> (symbol "?" *> expr) <*> (symbol ":" *> expr))))

/-- A name that is given a value. -/
def assignment (expr : Parser (Expr Lexeme)) : Parser (Expr Lexeme) :=
  .rule .assignment
    (.located
      ((fun target value loc => .assign loc target value) <$>
        ident <* .rule .assignOp (.word Word.assignOp) <*> expr))

/-- Expressions that lie at most `n` levels deep within each other. -/
def expr : Nat → Parser (Expr Lexeme)
  | 0 => .fail
  | n + 1 => .delay fun _ => .rule .expr (assignment (expr n) <|> ternary (expr n))

end Grammar

end Cairn
