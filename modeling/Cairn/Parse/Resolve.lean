import Cairn.Number.Decimal
import Cairn.Parse.Error
import Cairn.Tree.Basic

/-!
# Cairn — from lexemes to values

The grammar leaves the numbers of a program as digits. Resolving gives each of
them its value, and counts how deeply the tree nests: one level for the inside
of parentheses and of a block, for the value of an assignment, for the two
branches of a choice and for the body of a conditional or a loop. The first
number without a value, or the first level past the limit, ends it.
-/

namespace Cairn

namespace Lexeme

/-- The value of a literal. Whole numbers have 64 bits and numbers with a point
are finite. -/
def read? : Lexeme → Option Literal
  | .int digits => (readSigned? digits.toList).map .int
  | .float digits =>
    match Double.read? digits.toList with
    | some x => if x.isFinite then some (.float x) else none
    | none => none
  | .bool value => some (.bool value)
  | .str text => some (.str text)

/-- The digits of a number, for the report that it has no value. -/
def digits : Lexeme → String
  | .int digits => digits
  | .float digits => digits
  | _ => ""

end Lexeme

/-- Goes one level down from `depth`, unless that is past the limit. -/
def nested {α : Type} (limit depth : Nat) (loc : Location) (body : Nat → Except ParseError α) :
    Except ParseError α :=
  if limit < depth + 1 then .error ⟨.tooDeep (depth + 1) limit, loc⟩ else body (depth + 1)

namespace Expr

/-- Resolves the numbers of an expression that stands at the given depth. -/
def resolve (limit : Nat) : Nat → Expr Lexeme → Except ParseError (Expr Literal)
  | _, .literal loc value =>
    match value.read? with
    | some value => .ok (.literal loc value)
    | none => .error ⟨.badNumber value.digits, loc⟩
  | _, .name loc x => .ok (.name loc x)
  | depth, .group loc inner => do
    let inner ← nested limit depth loc fun d => inner.resolve limit d
    return .group loc inner
  | depth, .unary loc op operand => do
    let operand ← operand.resolve limit depth
    return .unary loc op operand
  | depth, .binary loc op left right => do
    let left ← left.resolve limit depth
    let right ← right.resolve limit depth
    return .binary loc op left right
  | depth, .assign loc target value => do
    let value ← nested limit depth (value.loc.through loc) fun d => value.resolve limit d
    return .assign loc target value
  | depth, .ternary loc cond onTrue onFalse => do
    let cond ← cond.resolve limit depth
    let branches ← nested limit depth loc fun d => do
      let onTrue ← onTrue.resolve limit d
      let onFalse ← onFalse.resolve limit d
      return (onTrue, onFalse)
    return .ternary loc cond branches.1 branches.2

end Expr

namespace Stmt

mutual

/-- Resolves the numbers of a statement that stands at the given depth. -/
def resolve (limit : Nat) : Nat → Stmt Lexeme → Except ParseError (Stmt Literal)
  | _, .empty loc => .ok (.empty loc)
  | _, .declaration loc ty names => .ok (.declaration loc ty names)
  | depth, .expression loc expr => do
    let expr ← expr.resolve limit depth
    return .expression loc expr
  | _, .read loc names => .ok (.read loc names)
  | depth, .write loc exprs => do
    let exprs ← exprs.mapM (Expr.resolve limit depth)
    return .write loc exprs
  | depth, .block loc body => do
    let body ← nested limit depth loc fun d => resolveAll limit d body
    return .block loc body
  | depth, .ifThen loc cond onTrue => do
    let cond ← cond.resolve limit depth
    let onTrue ← nested limit depth onTrue.loc fun d => onTrue.resolve limit d
    return .ifThen loc cond onTrue
  | depth, .ifElse loc cond onTrue onFalse => do
    let cond ← cond.resolve limit depth
    let onTrue ← nested limit depth onTrue.loc fun d => onTrue.resolve limit d
    let onFalse ← nested limit depth onFalse.loc fun d => onFalse.resolve limit d
    return .ifElse loc cond onTrue onFalse
  | depth, .whileDo loc cond body => do
    let cond ← cond.resolve limit depth
    let body ← nested limit depth body.loc fun d => body.resolve limit d
    return .whileDo loc cond body
  | depth, .doWhile loc body cond => do
    let body ← nested limit depth body.loc fun d => body.resolve limit d
    let cond ← cond.resolve limit depth
    return .doWhile loc body cond

/-- Resolves the numbers of statements that stand at the given depth. -/
def resolveAll (limit : Nat) : Nat → List (Stmt Lexeme) → Except ParseError (List (Stmt Literal))
  | _, [] => .ok []
  | depth, s :: rest => do
    let s ← s.resolve limit depth
    let rest ← resolveAll limit depth rest
    return s :: rest

end

end Stmt

end Cairn
