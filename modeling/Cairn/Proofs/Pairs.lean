import Cairn.Parse

/-!
# Cairn — parses as records

The grammar can be read without building trees: it then leaves a record of which
rule took up which stretch of the text, and of what was recorded within. Marks and
gaps leave nothing behind, and neither does a choice between rules.

A second pass turns the record into a tree. It takes the parts of each pair one
after the other, by position, and passes over words that say no more than the rule
they stand in. Operators are put in place by climbing through their precedence, and
the levels of the tree are kept in a counter that the whole pass shares. Nothing in
the type of a record keeps it from having a shape that the pass has no use for. If
it meets one it says so, in an error of its own, and where operators and operands do
not alternate it gets stuck.

## Main definitions

* `Pair`       — what is recorded of a rule.
* `Pairs.expr`, `Pairs.statement`, `Pairs.program` — the grammar, leaving records.
* `Build`      — computations with a counter that can fail or get stuck.
* `Pair.part`  — what is built from a pair.
* `buildWithin` — parsing through records.
-/

namespace Cairn

-- ---------------------------------------------------------------------------
-- Records
-- ---------------------------------------------------------------------------

/-- What a pair is a record of: a rule, or the inside of a text in quotes. -/
inductive Label where
  | rule (r : Rule)
  | inside
deriving DecidableEq

/-- A label with the stretch of text that it stands for, and what was recorded
within that. -/
inductive Pair where
  | node (label : Label) (loc : Location) (text : List Char) (inner : List Pair)

namespace Pair

def label : Pair → Label
  | .node label _ _ _ => label

def loc : Pair → Location
  | .node _ loc _ _ => loc

def text : Pair → List Char
  | .node _ _ text _ => text

def inner : Pair → List Pair
  | .node _ _ _ inner => inner

end Pair

/-- The text between the cursor and a later one. -/
def Cursor.textUpTo (c d : Cursor) : List Char :=
  c.rest.take (c.rest.length - d.rest.length)

namespace Pairs

variable (e s : Parser (List Pair))

/-- Records what `p` reads as one pair. -/
def pair (label : Label) (p : Parser (List Pair)) : Parser (List Pair) where
  run c := (p.run c).map fun r => ([.node label (c.upTo r.2) (c.textUpTo r.2) r.1], r.2)
  trace := p.trace

/-- A word that leaves no record. -/
def silent (measure : List Char → Option Nat) : Parser (List Pair) :=
  (fun _ => []) <$> .word measure

/-- A fixed sequence of characters that leaves no record. -/
def mark (text : String) : Parser (List Pair) :=
  silent (Word.symbol text)

/-- A word that is a rule of its own. -/
def atom (r : Rule) (measure : List Char → Option Nat) : Parser (List Pair) :=
  pair (.rule r) (silent measure)

/-- One behind the other. -/
instance : Append (Parser (List Pair)) where
  append p q := List.append <$> p <*> q

/-- As many as there are. -/
def many (p : Parser (List Pair)) : Parser (List Pair) :=
  List.flatten <$> .many p

/-- One or nothing. -/
def maybe (p : Parser (List Pair)) : Parser (List Pair) :=
  (fun found => found.getD []) <$> .optional p

-- ---------------------------------------------------------------------------
-- The grammar of expressions
-- ---------------------------------------------------------------------------

def keyword (k : Keyword) : Parser (List Pair) :=
  atom (.keyword k) (Word.keyword k)

def ident : Parser (List Pair) :=
  atom .ident Word.ident

def sign (op : UnaryOp) : Parser (List Pair) :=
  atom (.unary op) (Word.unaryOp op)

def operator (op : BinaryOp) : Parser (List Pair) :=
  atom (.operator op) (Word.symbol op.text)

def anyOperator : Parser (List Pair) :=
  BinaryOp.all.foldr (fun op others => operator op <|> others) .fail

/-- The quotes belong to the pair of the whole, and what is between them is a pair of
its own. No gap is skipped. -/
def string : Parser (List Pair) where
  run c := (Word.string c.rest).map fun n =>
    let inside := (c.advance 1).upTo (c.advance (n - 1))
    ([.node (.rule .string) (c.upTo (c.advance n)) (c.rest.take n)
      [.node .inside inside ((c.rest.take n).drop 1).dropLast []]], c.advance n)
  trace _ t := t

def bool : Parser (List Pair) :=
  pair (.rule .bool) (keyword .true <|> keyword .false)

def group : Parser (List Pair) :=
  pair (.rule .group) (mark "(" ++ e ++ mark ")")

def primary : Parser (List Pair) :=
  atom .float Word.float <|> atom .int Word.int <|> string <|> bool <|> ident <|> group e

def operand : Parser (List Pair) :=
  many (sign .neg <|> sign .not) ++ primary e

def binary : Parser (List Pair) :=
  pair (.rule .binary) (operand e ++ many (anyOperator ++ operand e))

def ternary : Parser (List Pair) :=
  pair (.rule .ternary) (binary e ++ maybe ((mark "?" ++ e) ++ (mark ":" ++ e)))

def assignment : Parser (List Pair) :=
  pair (.rule .assignment) (ident ++ atom .assignOp Word.assignOp ++ e)

def expr : Nat → Parser (List Pair)
  | 0 => .fail
  | n + 1 => .delay fun _ => pair (.rule .expr) (assignment (expr n) <|> ternary (expr n))

-- ---------------------------------------------------------------------------
-- The grammar of statements
-- ---------------------------------------------------------------------------

def commaList (p : Parser (List Pair)) : Parser (List Pair) :=
  p ++ many (mark "," ++ p)

def typeName : Parser (List Pair) :=
  pair (.rule .typeName) (keyword .int <|> keyword .float <|> keyword .bool <|> keyword .string)

def empty : Parser (List Pair) :=
  pair (.rule .empty) (mark ";")

def block : Parser (List Pair) :=
  pair (.rule .block) ((mark "\x7b" ++ many s) ++ mark "\x7d")

def declaration : Parser (List Pair) :=
  pair (.rule .declaration) (typeName ++ commaList ident ++ mark ";")

def read : Parser (List Pair) :=
  pair (.rule .read) ((keyword .read ++ commaList ident) ++ mark ";")

def write : Parser (List Pair) :=
  pair (.rule .write) ((keyword .write ++ commaList e) ++ mark ";")

def condition : Parser (List Pair) :=
  (mark "(" ++ e) ++ mark ")"

def ifStmt : Parser (List Pair) :=
  pair (.rule .ifStmt) ((keyword .if ++ condition e) ++ s ++ maybe (keyword .else ++ s))

def whileDo : Parser (List Pair) :=
  pair (.rule .whileDo) ((keyword .while ++ condition e) ++ s)

def doWhile : Parser (List Pair) :=
  pair (.rule .doWhile) ((keyword .do ++ s) ++ (keyword .while ++ condition e) ++ mark ";")

def expression : Parser (List Pair) :=
  pair (.rule .expression) (e ++ mark ";")

def statement : Nat → Parser (List Pair)
  | 0 => .fail
  | n + 1 => .delay fun _ =>
    empty <|> block (statement n) <|> declaration <|> read <|> write (expr (n + 1)) <|>
      ifStmt (expr (n + 1)) (statement n) <|> whileDo (expr (n + 1)) (statement n) <|>
      doWhile (expr (n + 1)) (statement n) <|> expression (expr (n + 1))

/-- A whole text, and its end. -/
def program (n : Nat) : Parser (List Pair) :=
  pair (.rule .program)
    (.pure [] ++ many (statement (n + 1)) ++
      pair (.rule .endOfInput) ((fun _ => []) <$> .endOfText))

end Pairs

-- ---------------------------------------------------------------------------
-- Computations with a counter
-- ---------------------------------------------------------------------------

/-- A computation that keeps a counter of levels. It gives a value or fails, and where
the counter stands then, or it gets stuck. -/
def Build (α : Type) : Type :=
  Nat → Option (Except ParseError α × Nat)

namespace Build

variable {α β : Type}

def ofExcept (x : Except ParseError α) : Build α :=
  fun depth => some (x, depth)

def fail (error : ParseError) : Build α :=
  ofExcept (.error error)

def stuck : Build α :=
  fun _ => none

/-- The error of the first computation is that of both. -/
def bind (x : Build α) (f : α → Build β) : Build β := fun depth =>
  match x depth with
  | none => none
  | some (.error error, depth') => some (.error error, depth')
  | some (.ok a, depth') => f a depth'

instance : Monad Build where
  pure a := ofExcept (.ok a)
  bind := bind

/-- Goes on with the error, if there is one, as a value. -/
def attempt (x : Build α) : Build (Except ParseError α) := fun depth =>
  (x depth).map fun r => (.ok r.1, r.2)

/-- The values of all members, up to the first failure. -/
def each (f : α → Build β) : List α → Build (List β)
  | [] => pure []
  | a :: rest => do
    let b ← f a
    let bs ← each f rest
    return b :: bs

/-- Goes one level down, unless that is past the limit, and comes back whether the
computation there succeeds or fails. -/
def nested (limit : Nat) (loc : Location) (body : Build α) : Build α := fun depth =>
  if limit < depth + 1 then some (.error ⟨.tooDeep (depth + 1) limit, loc⟩, depth)
  else (body (depth + 1)).map fun r => (r.1, depth)

end Build

-- ---------------------------------------------------------------------------
-- Parts of a record
-- ---------------------------------------------------------------------------

namespace Label

/-- The name of a binary operator as a rule. -/
def operatorName : BinaryOp → String
  | .or => "or"
  | .and => "and"
  | .eq => "eq"
  | .ne => "ne"
  | .lt => "lt"
  | .gt => "gt"
  | .add => "add"
  | .sub => "sub"
  | .concat => "concat"
  | .mul => "mul"
  | .div => "div"
  | .mod => "modulo"

/-- The name of the label, for the report that a pair is out of place. -/
def name : Label → String
  | .rule .endOfInput => "EOI"
  | .rule (.keyword k) => "kw_" ++ k.text
  | .rule .ident => "ident"
  | .rule .program => "program"
  | .rule .empty => "empty_stmt"
  | .rule .block => "block"
  | .rule .declaration => "declaration"
  | .rule .typeName => "type_name"
  | .rule .read => "read_stmt"
  | .rule .write => "write_stmt"
  | .rule .ifStmt => "if_stmt"
  | .rule .whileDo => "while_stmt"
  | .rule .doWhile => "do_while_stmt"
  | .rule .expression => "expr_stmt"
  | .rule .expr => "expr"
  | .rule .assignment => "assignment"
  | .rule .assignOp => "assign_op"
  | .rule .ternary => "ternary"
  | .rule .binary => "binary"
  | .rule (.unary .neg) => "neg"
  | .rule (.unary .not) => "not"
  | .rule (.operator op) => operatorName op
  | .rule .group => "grouped"
  | .rule .float => "float"
  | .rule .int => "integer"
  | .rule .bool => "boolean"
  | .rule .string => "string"
  | .inside => "string_inner"

/-- The word says no more than the rule it stands in. -/
def isFiller : Label → Bool
  | .rule (.keyword k) => [Keyword.read, .write, .if, .else, .while, .do].contains k
  | .rule .assignOp => true
  | .rule .endOfInput => true
  | _ => false

end Label

/-- A pair and what can be built from it. -/
structure Part where
  pair : Pair
  expr : Build (Expr Literal)
  statement : Build (Stmt Literal)

/-- The error for a pair that has no use where it stands. -/
def malformed (pair : Pair) : ParseError :=
  ⟨.unexpected "well-formed input" pair.label.name, pair.loc⟩

namespace Part

/-- The parts without those that say nothing. -/
def telling (parts : List Part) : List Part :=
  parts.filter fun part => !part.pair.label.isFiller

/-- The next part within the pair at `loc`, and those behind it. -/
def expect (loc : Location) : List Part → Build (Part × List Part)
  | [] => .fail ⟨.unexpected "more input" "end of rule", loc⟩
  | part :: rest => pure (part, rest)

/-- The name that the part stands for. -/
def ident (part : Part) : Ident :=
  ⟨String.ofList part.pair.text, part.pair.loc⟩

def idents (parts : List Part) : Build (List Ident) :=
  Build.each (fun part =>
    if part.pair.label = .rule .ident then pure part.ident else .fail (malformed part.pair)) parts

def typeName (part : Part) : Build Ty :=
  match part.pair.inner with
  | [] => .fail (malformed part.pair)
  | word :: _ =>
    match word.label with
    | .rule (.keyword .int) => pure .int
    | .rule (.keyword .float) => pure .float
    | .rule (.keyword .bool) => pure .bool
    | .rule (.keyword .string) => pure .string
    | _ => .fail (malformed word)

/-- The number that the pair stands for. -/
def number (pair : Pair) (lexeme : Lexeme) : Build (Expr Literal) :=
  match lexeme.read? with
  | some value => pure (.literal pair.loc value)
  | none => .fail ⟨.badNumber lexeme.digits, pair.loc⟩

/-- The part as a body or a branch, one level down. -/
def body (limit : Nat) (part : Part) : Build (Stmt Literal) :=
  .nested limit part.pair.loc part.statement

end Part

-- ---------------------------------------------------------------------------
-- Operators and operands
-- ---------------------------------------------------------------------------

/-- Where an operator stands. -/
inductive Affix where
  | front (op : UnaryOp)
  | between (op : BinaryOp)

namespace Affix

/-- The operator that a label stands for. -/
def of? : Label → Option Affix
  | .rule (.unary op) => some (.front op)
  | .rule (.operator op) => some (.between op)
  | _ => none

/-- How tightly the operator binds, in steps of ten from the loosest level on. -/
def power : Affix → Nat
  | .front _ => 70
  | .between op => 10 * (op.precedence + 1)

end Affix

/-- An operand that may have failed. The operators around it are read all the same. -/
abbrev Operand := Except ParseError (Expr Literal)

namespace Operand

def unary (loc : Location) (op : UnaryOp) (operand : Operand) : Operand := do
  let e ← operand
  return .unary (loc.through e.loc) op e

/-- If both operands have failed, the error is that of the left one. -/
def binary (op : BinaryOp) (left right : Operand) : Operand := do
  let l ← left
  let r ← right
  return .binary (l.loc.through r.loc) op l r

end Operand

namespace Part

mutual

/-- The operand in front, with the operators that apply to it, and what is behind it.
The first argument bounds the number of parts. -/
def operand : Nat → List Part → Build (Operand × List Part)
  | 0, _ => .stuck
  | _, [] => .stuck
  | n + 1, part :: rest =>
    match Affix.of? part.pair.label with
    | none => do
      let outcome ← part.expr.attempt
      return (outcome, rest)
    | some (.front op) => do
      let inner ← operand n rest
      let inner ← climb n ((Affix.front op).power - 1) inner.1 inner.2
      return (inner.1.unary part.pair.loc op, inner.2)
    | some (.between _) => .stuck

/-- Takes up operators that bind more tightly than `power`, with their right operands,
behind an operand. -/
def climb : Nat → Nat → Operand → List Part → Build (Operand × List Part)
  | _, _, left, [] => pure (left, [])
  | 0, _, _, _ :: _ => .stuck
  | n + 1, power, left, part :: rest =>
    match Affix.of? part.pair.label with
    | none => .stuck
    | some affix =>
      if power < affix.power then
        match affix with
        | .front _ => .stuck
        | .between op => do
          let right ← operand n rest
          let right ← climb n affix.power right.1 right.2
          climb n power (left.binary op right.1) right.2
      else pure (left, part :: rest)

end

/-- The tree of a chain of operands. -/
def chain (parts : List Part) : Build (Expr Literal) := do
  let first ← operand parts.length parts
  let whole ← climb parts.length 0 first.1 first.2
  .ofExcept whole.1

end Part

-- ---------------------------------------------------------------------------
-- Trees
-- ---------------------------------------------------------------------------

namespace Pair

/-- The expression of a pair with the given parts. -/
def exprOf (limit : Nat) (pair : Pair) (parts : List Part) : Build (Expr Literal) :=
  match pair.label with
  | .rule .expr => do
    let inner ← Part.expect pair.loc (Part.telling parts)
    inner.1.expr
  | .rule .assignment => do
    let target ← Part.expect pair.loc (Part.telling parts)
    let value ← Part.expect pair.loc target.2
    let e ← Build.nested limit value.1.pair.loc value.1.expr
    return .assign pair.loc target.1.ident e
  | .rule .ternary => do
    let first ← Part.expect pair.loc (Part.telling parts)
    let cond ← first.1.expr
    match first.2 with
    | [] => return cond
    | onTrue :: rest => do
      let onFalse ← Part.expect pair.loc rest
      let branches ← Build.nested limit pair.loc do
        let t ← onTrue.expr
        let f ← onFalse.1.expr
        return (t, f)
      return .ternary pair.loc cond branches.1 branches.2
  | .rule .binary => Part.chain parts
  | .rule .int => Part.number pair (.int (String.ofList pair.text))
  | .rule .float => Part.number pair (.float (String.ofList pair.text))
  | .rule .bool =>
    match pair.inner with
    | [] => .fail (malformed pair)
    | word :: _ => pure (.literal pair.loc (.bool (word.label = .rule (.keyword .true))))
  | .rule .string =>
    match pair.inner with
    | [] => .fail (malformed pair)
    | inside :: _ =>
      pure (.literal pair.loc (.str (String.ofList (Word.unescape inside.text))))
  | .rule .ident => pure (.name pair.loc (String.ofList pair.text))
  | .rule .group => do
    let inner ← Part.expect pair.loc (Part.telling parts)
    let e ← Build.nested limit pair.loc inner.1.expr
    return .group pair.loc e
  | _ => .fail (malformed pair)

/-- The statement of a pair with the given parts. -/
def statementOf (limit : Nat) (pair : Pair) (parts : List Part) : Build (Stmt Literal) :=
  match pair.label with
  | .rule .empty => pure (.empty pair.loc)
  | .rule .block => do
    let body ← Build.nested limit pair.loc (Build.each Part.statement (Part.telling parts))
    return .block pair.loc body
  | .rule .declaration => do
    let first ← Part.expect pair.loc (Part.telling parts)
    let ty ← first.1.typeName
    let names ← Part.idents first.2
    return .declaration pair.loc ty names
  | .rule .read => do
    let names ← Part.idents (Part.telling parts)
    return .read pair.loc names
  | .rule .write => do
    let exprs ← Build.each Part.expr (Part.telling parts)
    return .write pair.loc exprs
  | .rule .ifStmt => do
    let first ← Part.expect pair.loc (Part.telling parts)
    let cond ← first.1.expr
    let second ← Part.expect pair.loc first.2
    let onTrue ← second.1.body limit
    match second.2 with
    | [] => return .ifThen pair.loc cond onTrue
    | third :: _ => do
      let onFalse ← third.body limit
      return .ifElse pair.loc cond onTrue onFalse
  | .rule .whileDo => do
    let first ← Part.expect pair.loc (Part.telling parts)
    let cond ← first.1.expr
    let second ← Part.expect pair.loc first.2
    let body ← second.1.body limit
    return .whileDo pair.loc cond body
  | .rule .doWhile => do
    let first ← Part.expect pair.loc (Part.telling parts)
    let body ← first.1.body limit
    let second ← Part.expect pair.loc first.2
    let cond ← second.1.expr
    return .doWhile pair.loc body cond
  | .rule .expression => do
    let first ← Part.expect pair.loc (Part.telling parts)
    let e ← first.1.expr
    return .expression pair.loc e
  | _ => .fail (malformed pair)

mutual

/-- What is built from a pair, under a limit on levels. -/
def part (limit : Nat) : Pair → Part
  | .node label loc text inner =>
    ⟨.node label loc text inner, exprOf limit (.node label loc text inner) (parts limit inner),
      statementOf limit (.node label loc text inner) (parts limit inner)⟩

/-- What is built from each of the pairs. -/
def parts (limit : Nat) : List Pair → List Part
  | [] => []
  | pair :: rest => pair.part limit :: parts limit rest

end

end Pair

/-- The statements of a record, with the counter at zero at the start. -/
def Pairs.build (limit : Nat) : List Pair → Option (Except ParseError Program × Nat)
  | [] => some (.ok [], 0)
  | program :: _ => Build.each Part.statement (Part.telling (Pair.parts limit program.inner)) 0

/-- Parses a text through a record, whose nesting may go `limit` levels deep. If the
pass over the record gets stuck, there is no result. -/
def buildWithin (limit : Nat) (source : String) : Option (Except ParseError Program) :=
  match Nesting.check limit source.toList with
  | some e => some (.error e)
  | none =>
    match (Pairs.program source.toList.length).run (.ofChars source.toList) with
    | none => some (.error (syntaxError source.toList))
    | some (pairs, _) => (Pairs.build limit pairs).map Prod.fst

end Cairn
