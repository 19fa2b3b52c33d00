import Cairn.Grammar.Expression

/-!
# Cairn — the grammar of statements and programs

Statements contain statements only behind a brace, a parenthesis or a reserved
word, so that here, too, the length of the text bounds the depth. An `else`
belongs to the nearest `if` that has none.
-/

namespace Cairn.Grammar

/-- One or more of `p`, with commas between them. -/
def commaList {α : Type} (p : Parser α) : Parser (List α) :=
  List.cons <$> p <*> .many (symbol "," *> p)

/-- The name of a type. -/
def typeName : Parser Ty :=
  .rule .typeName
    ((fun _ => .int) <$> keyword .int <|> (fun _ => .float) <$> keyword .float <|>
      (fun _ => .bool) <$> keyword .bool <|> (fun _ => .string) <$> keyword .string)

/-- A lone semicolon. -/
def empty : Parser (Stmt Lexeme) :=
  .rule .empty (.located ((fun _ loc => .empty loc) <$> symbol ";"))

/-- Statements in braces. -/
def block (statement : Parser (Stmt Lexeme)) : Parser (Stmt Lexeme) :=
  .rule .block
    (.located ((fun body loc => .block loc body) <$> (symbol "\x7b" *> .many statement) <* symbol "\x7d"))

/-- A type and the names declared to have it. -/
def declaration : Parser (Stmt Lexeme) :=
  .rule .declaration
    (.located
      ((fun ty names loc => .declaration loc ty names) <$> typeName <*> commaList ident <* symbol ";"))

/-- The names to read values for. -/
def read : Parser (Stmt Lexeme) :=
  .rule .read
    (.located ((fun names loc => .read loc names) <$> (keyword .read *> commaList ident) <* symbol ";"))

/-- The expressions to write on one line. -/
def write (expr : Parser (Expr Lexeme)) : Parser (Stmt Lexeme) :=
  .rule .write
    (.located ((fun exprs loc => .write loc exprs) <$> (keyword .write *> commaList expr) <* symbol ";"))

/-- A condition in parentheses. -/
def condition (expr : Parser (Expr Lexeme)) : Parser (Expr Lexeme) :=
  symbol "(" *> expr <* symbol ")"

/-- A statement to execute if a condition holds, and possibly another one if it
does not. -/
def ifStmt (expr : Parser (Expr Lexeme)) (statement : Parser (Stmt Lexeme)) : Parser (Stmt Lexeme) :=
  .rule .ifStmt
    (.located
      ((fun cond onTrue onFalse loc =>
          match onFalse with
          | none => .ifThen loc cond onTrue
          | some onFalse => .ifElse loc cond onTrue onFalse) <$>
        (keyword .if *> condition expr) <*> statement <*> .optional (keyword .else *> statement)))

/-- A statement to repeat while a condition holds. -/
def whileDo (expr : Parser (Expr Lexeme)) (statement : Parser (Stmt Lexeme)) : Parser (Stmt Lexeme) :=
  .rule .whileDo
    (.located
      ((fun cond body loc => .whileDo loc cond body) <$>
        (keyword .while *> condition expr) <*> statement))

/-- A statement to execute once and to repeat while a condition holds. -/
def doWhile (expr : Parser (Expr Lexeme)) (statement : Parser (Stmt Lexeme)) : Parser (Stmt Lexeme) :=
  .rule .doWhile
    (.located
      ((fun body cond loc => .doWhile loc body cond) <$>
        (keyword .do *> statement) <*> (keyword .while *> condition expr) <* symbol ";"))

/-- An expression that is evaluated for its effect. -/
def expression (expr : Parser (Expr Lexeme)) : Parser (Stmt Lexeme) :=
  .rule .expression (.located ((fun e loc => .expression loc e) <$> expr <* symbol ";"))

/-- Statements that lie at most `n` levels deep within each other. -/
def statement : Nat → Parser (Stmt Lexeme)
  | 0 => .fail
  | n + 1 => .delay fun _ =>
    empty <|> block (statement n) <|> declaration <|> read <|> write (expr (n + 1)) <|>
      ifStmt (expr (n + 1)) (statement n) <|> whileDo (expr (n + 1)) (statement n) <|>
      doWhile (expr (n + 1)) (statement n) <|> expression (expr (n + 1))

/-- A whole text of at most `n` characters. -/
def program (n : Nat) : Parser (List (Stmt Lexeme)) :=
  .rule .program
    (Parser.pure id <*> .many (statement (n + 1)) <* .rule .endOfInput .endOfText)

end Cairn.Grammar
