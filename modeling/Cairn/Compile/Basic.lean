import Cairn.Compile.Emitter
import Cairn.Compile.Operators

/-!
# Cairn — compiling

An expression compiles to code that leaves its value on the stack, and has a
type. A statement compiles to code that leaves the stack as it was. A fault is
reported where it occurs, and its expression has the type `Ty.error`, about
which nothing more is reported.

The type of a right operand may ask for a conversion of the left one. It is
put behind the code of the left operand, in front of all that followed.

## Main definitions

* `Expr.compile`, `Stmt.compile` — the code of expressions and statements.
* `Program.compile`              — the code of a program and its diagnostics.
-/

namespace Cairn

open Emitter

-- ---------------------------------------------------------------------------
-- Operators
-- ---------------------------------------------------------------------------

/-- The value of a literal. -/
def Literal.toValue : Literal → Value
  | .int i => .int i
  | .float x => .float x
  | .bool b => .bool b
  | .str s => .str s

/-- The instructions of a binary operator whose result has the given type. -/
def BinaryOp.instructions (op : BinaryOp) (result : Ty) : List Instruction :=
  let tag := if result = .float then Tag.float else Tag.int
  match op with
  | .add => [.binary (.add tag)]
  | .sub => [.binary (.sub tag)]
  | .mul => [.binary (.mul tag)]
  | .div => [.binary (.div tag)]
  | .mod => [.binary .mod]
  | .concat => [.binary .concat]
  | .lt => [.binary .lt]
  | .gt => [.binary .gt]
  | .eq => [.binary .eq]
  | .ne => [.binary .eq, .unary .not]
  | .and => [.binary .and]
  | .or => [.binary .or]

/-- The instruction of a unary operator. -/
def UnaryOp.instruction : UnaryOp → Instruction
  | .neg => .unary .uminus
  | .not => .unary .not

/-- Emits instructions one after the other. -/
def emitAll : List Instruction → StateM Emitter Unit
  | [] => return
  | i :: rest => do
    emit i
    emitAll rest

/-- Applies a binary operator to operands whose code is in place. The code of
the left one ends at `leftEnd`. -/
def compileOperator (loc : Location) (op : BinaryOp) (left right : Ty) (leftEnd : Nat) :
    StateM Emitter Ty := do
  if left.isError || right.isError then return .error
  match op.check left right with
  | .error fault =>
    report loc fault
    return .error
  | .ok (result, widening) =>
    match widening with
    | .left => insertAt leftEnd (.unary .itof)
    | .right => emit (.unary .itof)
    | .none => pure ()
    emitAll (op.instructions result)
    return result

/-- Reports a condition that is not a truth value. -/
def checkCondition (loc : Location) (ty : Ty) : StateM Emitter Unit := do
  if ty ≠ .bool ∧ ty ≠ .error then report loc (.conditionNotBool ty)

/-- Stores the value on the stack into a name and loads it again. -/
def compileAssignment (target : Ident) (value : Ty) : StateM Emitter Ty := do
  match ← typeOf? target.name with
  | none =>
    report target.loc (.undeclared target.name)
    return .error
  | some ty =>
    if value.isError then return .error
    if ty ≠ value then
      if ty = .float ∧ value = .int then emit (.unary .itof)
      else
        report target.loc (.assignmentMismatch target.name ty value)
        return .error
    emit (.save target.name)
    emit (.load target.name)
    return ty

/-- The type of a choice. -/
def checkBranches (loc : Location) (cond onTrue onFalse : Ty) : StateM Emitter Ty := do
  if cond ≠ .bool ∨ onTrue.isError ∨ onFalse.isError then return .error
  if onTrue = onFalse then return onTrue
  if onTrue.isNumeric && onFalse.isNumeric then return .float
  report loc (.branchMismatch onTrue onFalse)
  return .error

-- ---------------------------------------------------------------------------
-- Expressions
-- ---------------------------------------------------------------------------

/-- Compiles an expression and gives its type. -/
def Expr.compile : Expr Literal → StateM Emitter Ty
  | .literal _ value => do
    emit (.push value.toValue)
    return value.toValue.ty
  | .name loc x => do
    match ← typeOf? x with
    | some ty =>
      emit (.load x)
      return ty
    | none =>
      report loc (.undeclared x)
      return .error
  | .group _ inner => inner.compile
  | .unary loc op operand => do
    let ty ← operand.compile
    if ty.isError then return .error
    match op.check ty with
    | .ok result =>
      emit op.instruction
      return result
    | .error fault =>
      report loc fault
      return .error
  | .binary loc op left right => do
    let leftTy ← left.compile
    let leftEnd ← offset
    let rightTy ← right.compile
    compileOperator loc op leftTy rightTy leftEnd
  | .assign _ target value => do
    let ty ← value.compile
    compileAssignment target ty
  | .ternary loc cond onTrue onFalse => do
    let otherwise ← freshLabel
    let done ← freshLabel
    let condTy ← cond.compile
    checkCondition cond.loc condTy
    emit (.fjmp otherwise)
    let trueTy ← onTrue.compile
    emit (.jmp done)
    emit (.label otherwise)
    let falseTy ← onFalse.compile
    emit (.label done)
    checkBranches loc condTy trueTy falseTy

/-- Compiles the condition of a statement. -/
def Expr.compileCondition (cond : Expr Literal) : StateM Emitter Unit := do
  let ty ← cond.compile
  checkCondition cond.loc ty

/-- Compiles expressions one after the other. -/
def compileExprs : List (Expr Literal) → StateM Emitter Unit
  | [] => return
  | e :: rest => do
    let _ ← e.compile
    compileExprs rest

-- ---------------------------------------------------------------------------
-- Statements
-- ---------------------------------------------------------------------------

/-- Declares a name and sets it to the zero of its type. -/
def compileDeclaration (ty : Ty) (x : Ident) : StateM Emitter Unit := do
  let s ← get
  match s.symbols.declare x.name ty with
  | .error _ => report x.loc (.redeclared x.name)
  | .ok symbols =>
    set { s with symbols := symbols }
    match ty.zero? with
    | some zero =>
      emit (.push zero)
      emit (.save x.name)
    | none => pure ()

/-- Declares names one after the other. -/
def compileDeclarations (ty : Ty) : List Ident → StateM Emitter Unit
  | [] => return
  | x :: rest => do
    compileDeclaration ty x
    compileDeclarations ty rest

/-- Reads a value into a name. -/
def compileRead (x : Ident) : StateM Emitter Unit := do
  match (← typeOf? x.name).bind Ty.tag? with
  | some tag =>
    emit (.read tag)
    emit (.save x.name)
  | none => report x.loc (.undeclared x.name)

/-- Reads values into names one after the other. -/
def compileReads : List Ident → StateM Emitter Unit
  | [] => return
  | x :: rest => do
    compileRead x
    compileReads rest

namespace Stmt

mutual

/-- Compiles a statement. -/
def compile : Stmt Literal → StateM Emitter Unit
  | .empty _ => return
  | .declaration _ ty names => compileDeclarations ty names
  | .expression _ expr => do
    let _ ← expr.compile
    emit .pop
  | .read _ names => compileReads names
  | .write _ exprs => do
    compileExprs exprs
    emit (.print (UInt64.ofNat exprs.length))
  | .block _ body => compileAll body
  | .ifThen _ cond onTrue => do
    let done ← freshLabel
    cond.compileCondition
    emit (.fjmp done)
    onTrue.compile
    emit (.label done)
  | .ifElse _ cond onTrue onFalse => do
    let otherwise ← freshLabel
    let done ← freshLabel
    cond.compileCondition
    emit (.fjmp otherwise)
    onTrue.compile
    emit (.jmp done)
    emit (.label otherwise)
    onFalse.compile
    emit (.label done)
  | .whileDo _ cond body => do
    let again ← freshLabel
    let done ← freshLabel
    emit (.label again)
    cond.compileCondition
    emit (.fjmp done)
    body.compile
    emit (.jmp again)
    emit (.label done)
  | .doWhile _ body cond => do
    let again ← freshLabel
    let done ← freshLabel
    emit (.label again)
    body.compile
    cond.compileCondition
    emit (.fjmp done)
    emit (.jmp again)
    emit (.label done)

/-- Compiles statements one after the other. -/
def compileAll : List (Stmt Literal) → StateM Emitter Unit
  | [] => return
  | s :: rest => do
    s.compile
    compileAll rest

end

end Stmt

/-- Compiles a program: what was built up when all of it is compiled. The code
is meant to be executed only if there are no diagnostics. -/
def Program.compile (program : Program) : Emitter :=
  ((Stmt.compileAll program).run .start).2

end Cairn
