import Cairn.Parse
import Cairn.Proofs.Names

/-!
# Cairn — programs as texts

A program is written as the sequence of its terminals, with a separator between
any two of them. This module says which terminals a tree has, how each of them
may be spelled, what may separate them, and which trees are in the form that
the grammar gives to texts: no parentheses are missing from them.

## Main definitions

* `Terminal.Spells` — the ways to spell a terminal.
* `Written`        — the texts of a sequence of terminals.
* `Expr.terminals`, `Stmt.terminals` — the terminals of a tree.
* `Expr.InForm`, `Stmt.InForm` — the trees that need no more parentheses.
* `Expr.bare`, `Stmt.bare` — trees without their locations.
-/

namespace Cairn

-- ---------------------------------------------------------------------------
-- Terminals
-- ---------------------------------------------------------------------------

/-- Punctuation and operators. -/
inductive Mark where
  | leftParen
  | rightParen
  | leftBrace
  | rightBrace
  | semicolon
  | comma
  | question
  | colon
  | assign
  | unary (op : UnaryOp)
  | binary (op : BinaryOp)
deriving DecidableEq

/-- How the mark is written. -/
def Mark.text : Mark → String
  | .leftParen => "("
  | .rightParen => ")"
  | .leftBrace => "\x7b"
  | .rightBrace => "\x7d"
  | .semicolon => ";"
  | .comma => ","
  | .question => "?"
  | .colon => ":"
  | .assign => "="
  | .unary op => op.text
  | .binary op => op.text

/-- What programs are made of. -/
inductive Terminal where
  | keyword (k : Keyword)
  | name (x : String)
  | literal (value : Literal)
  | mark (s : Mark)
deriving DecidableEq

/-- A letter or an underscore, then letters, digits and underscores, and not a
reserved word. -/
structure IsIdentifier (x : String) : Prop where
  start : ∃ c cs, x.toList = c :: cs ∧ (c.isAlpha ∨ c = '_')
  chars : ∀ c ∈ x.toList, c.isAlphanum ∨ c = '_'
  free : ∀ k : Keyword, k.text ≠ x

/-- One or more digits. -/
def IsDigits (cs : List Char) : Prop :=
  cs ≠ [] ∧ ∀ c ∈ cs, c.isDigit

/-- The ways to spell a terminal. Numbers have no sign; a number with a point is
any digits on both sides of it that are read as the number. -/
def Terminal.Spells : Terminal → List Char → Prop
  | .keyword k, cs => cs = k.text.toList
  | .name x, cs => IsIdentifier x ∧ cs = x.toList
  | .literal (.int i), cs => IsDigits cs ∧ (digitsValue cs : Int) = i.toInt
  | .literal (.float x), cs =>
    ∃ whole fraction, IsDigits whole ∧ IsDigits fraction ∧ cs = whole ++ '.' :: fraction ∧
      x.isFinite ∧ Double.read? cs = some x
  | .literal (.bool b), cs => cs = (boolText b).toList
  | .literal (.str s), cs => cs = (quoted s).toList
  | .mark s, cs => cs = s.text.toList

-- ---------------------------------------------------------------------------
-- Texts
-- ---------------------------------------------------------------------------

/-- Any mix of blanks and comments. -/
inductive Spacing : List Char → Prop
  | nil : Spacing []
  | blank {c : Char} {cs : List Char} : Word.isBlank c → Spacing cs → Spacing (c :: cs)
  | line {text cs : List Char} : (∀ c ∈ text, Word.isNewline c = false) → Spacing cs →
      Spacing ('/' :: '/' :: text ++ '\n' :: cs)
  | block {text cs : List Char} : ¬ ['*', '/'] <:+: text → Spacing cs →
      Spacing ('/' :: '*' :: text ++ '*' :: '/' :: cs)

/-- What stands between two terminals: a blank, and any mix of blanks and
comments behind it. -/
def Separator (cs : List Char) : Prop :=
  ∃ c rest, cs = c :: rest ∧ Word.isBlank c ∧ Spacing rest

/-- The text is the terminals, each in some spelling, with a separator between
any two of them. -/
inductive Written : List Terminal → List Char → Prop
  | nil : Written [] []
  | one {t : Terminal} {word : List Char} : t.Spells word → Written [t] word
  | cons {t u : Terminal} {ts : List Terminal} {word gap rest : List Char} : t.Spells word →
      Separator gap → Written (u :: ts) rest → Written (t :: u :: ts) (word ++ (gap ++ rest))

-- ---------------------------------------------------------------------------
-- The terminals of a tree
-- ---------------------------------------------------------------------------

/-- The terminals of an expression. -/
def Expr.terminals : Expr Literal → List Terminal
  | .literal _ value => [.literal value]
  | .name _ x => [.name x]
  | .group _ inner => .mark .leftParen :: (inner.terminals ++ [.mark .rightParen])
  | .unary _ op operand => .mark (.unary op) :: operand.terminals
  | .binary _ op left right => left.terminals ++ .mark (.binary op) :: right.terminals
  | .assign _ target value => .name target.name :: .mark .assign :: value.terminals
  | .ternary _ cond onTrue onFalse =>
    cond.terminals ++ .mark .question :: (onTrue.terminals ++ .mark .colon :: onFalse.terminals)

/-- The parts with commas between them. -/
def commaSeparated : List (List Terminal) → List Terminal
  | [] => []
  | part :: rest => part ++ rest.flatMap (.mark .comma :: ·)

/-- The terminal of a type; the mark of an error has none. -/
def Ty.terminals : Ty → List Terminal
  | .int => [.keyword .int]
  | .float => [.keyword .float]
  | .bool => [.keyword .bool]
  | .string => [.keyword .string]
  | .error => []

/-- The terminals of a list of names. -/
def namesTerminals (names : List Ident) : List Terminal :=
  commaSeparated (names.map fun x => [.name x.name])

/-- The terminals of a condition. -/
def Expr.conditionTerminals (cond : Expr Literal) : List Terminal :=
  .mark .leftParen :: (cond.terminals ++ [.mark .rightParen])

namespace Stmt

mutual

/-- The terminals of a statement. -/
def terminals : Stmt Literal → List Terminal
  | .empty _ => [.mark .semicolon]
  | .declaration _ ty names => ty.terminals ++ (namesTerminals names ++ [.mark .semicolon])
  | .expression _ e => e.terminals ++ [.mark .semicolon]
  | .read _ names => .keyword .read :: (namesTerminals names ++ [.mark .semicolon])
  | .write _ exprs =>
    .keyword .write :: (commaSeparated (exprs.map Expr.terminals) ++ [.mark .semicolon])
  | .block _ body => .mark .leftBrace :: (terminalsAll body ++ [.mark .rightBrace])
  | .ifThen _ cond onTrue => .keyword .if :: (cond.conditionTerminals ++ onTrue.terminals)
  | .ifElse _ cond onTrue onFalse =>
    .keyword .if ::
      (cond.conditionTerminals ++ (onTrue.terminals ++ .keyword .else :: onFalse.terminals))
  | .whileDo _ cond body => .keyword .while :: (cond.conditionTerminals ++ body.terminals)
  | .doWhile _ body cond =>
    .keyword .do ::
      (body.terminals ++ .keyword .while :: (cond.conditionTerminals ++ [.mark .semicolon]))

/-- The terminals of statements one after the other. -/
def terminalsAll : List (Stmt Literal) → List Terminal
  | [] => []
  | s :: rest => s.terminals ++ terminalsAll rest

end

end Stmt

-- ---------------------------------------------------------------------------
-- Trees in the form of the grammar
-- ---------------------------------------------------------------------------

/-- The literal is written without a sign: a number from zero on, and finite. -/
def Literal.IsUnsigned : Literal → Prop
  | .int i => 0 ≤ i.toInt
  | .float x => x.isFinite ∧ x.negative = false
  | _ => True

namespace Expr

/-- How tightly the parts of an expression hold together. Assignments and choices
do least, and operands of operators most. -/
def tightness {L : Type} : Expr L → Nat
  | .assign .. => 0
  | .ternary .. => 0
  | .binary _ op _ _ => op.precedence + 1
  | _ => 7

/-- The expression is in the form that the grammar gives to texts: all operands
hold together as tightly as their place asks for, which is more on the right of
an operator than on its left. -/
def InForm : Expr Literal → Prop
  | .literal _ value => value.IsUnsigned
  | .name _ x => IsIdentifier x
  | .group _ inner => inner.InForm
  | .unary _ _ operand => 7 ≤ operand.tightness ∧ operand.InForm
  | .binary _ op left right =>
    op.precedence + 1 ≤ left.tightness ∧ op.precedence + 1 < right.tightness ∧
      left.InForm ∧ right.InForm
  | .assign _ target value => IsIdentifier target.name ∧ value.InForm
  | .ternary _ cond onTrue onFalse =>
    0 < cond.tightness ∧ cond.InForm ∧ onTrue.InForm ∧ onFalse.InForm

end Expr

namespace Stmt

/-- The statement ends in an `if` that has no `else`. -/
def EndsOpen {L : Type} : Stmt L → Prop
  | .ifThen .. => True
  | .ifElse _ _ _ onFalse => onFalse.EndsOpen
  | .whileDo _ _ body => body.EndsOpen
  | _ => False

/-- What the form asks of a statement itself: lists are not empty, and an `else`
belongs to the `if` that it would be read with. -/
def IsShaped : Stmt Literal → Prop
  | .declaration _ ty names => ty ≠ .error ∧ names ≠ [] ∧ ∀ x ∈ names, IsIdentifier x.name
  | .expression _ e => e.InForm
  | .read _ names => names ≠ [] ∧ ∀ x ∈ names, IsIdentifier x.name
  | .write _ exprs => exprs ≠ [] ∧ ∀ e ∈ exprs, e.InForm
  | .ifThen _ cond _ => cond.InForm
  | .ifElse _ cond onTrue _ => cond.InForm ∧ ¬ onTrue.EndsOpen
  | .whileDo _ cond _ => cond.InForm
  | .doWhile _ _ cond => cond.InForm
  | _ => True

/-- The statement is in the form that the grammar gives to texts, with all that
is in it. -/
def InForm : Stmt Literal → Prop :=
  All IsShaped

end Stmt

-- ---------------------------------------------------------------------------
-- Trees without locations
-- ---------------------------------------------------------------------------

/-- A location that says nothing. -/
def nowhere : Location :=
  .between { } { }

/-- The name without its location. -/
def Ident.bare (x : Ident) : Ident :=
  ⟨x.name, nowhere⟩

/-- The expression without its locations. -/
def Expr.bare {L : Type} : Expr L → Expr L
  | .literal _ value => .literal nowhere value
  | .name _ x => .name nowhere x
  | .group _ inner => .group nowhere inner.bare
  | .unary _ op operand => .unary nowhere op operand.bare
  | .binary _ op left right => .binary nowhere op left.bare right.bare
  | .assign _ target value => .assign nowhere target.bare value.bare
  | .ternary _ cond onTrue onFalse => .ternary nowhere cond.bare onTrue.bare onFalse.bare

namespace Stmt

mutual

/-- The statement without its locations. -/
def bare {L : Type} : Stmt L → Stmt L
  | .empty _ => .empty nowhere
  | .declaration _ ty names => .declaration nowhere ty (names.map Ident.bare)
  | .expression _ e => .expression nowhere e.bare
  | .read _ names => .read nowhere (names.map Ident.bare)
  | .write _ exprs => .write nowhere (exprs.map Expr.bare)
  | .block _ body => .block nowhere (bareAll body)
  | .ifThen _ cond onTrue => .ifThen nowhere cond.bare onTrue.bare
  | .ifElse _ cond onTrue onFalse => .ifElse nowhere cond.bare onTrue.bare onFalse.bare
  | .whileDo _ cond body => .whileDo nowhere cond.bare body.bare
  | .doWhile _ body cond => .doWhile nowhere body.bare cond.bare

/-- The statements without their locations. -/
def bareAll {L : Type} : List (Stmt L) → List (Stmt L)
  | [] => []
  | s :: rest => s.bare :: bareAll rest

end

end Stmt

end Cairn
