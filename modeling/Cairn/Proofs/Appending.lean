import Cairn.Proofs.Typing

/-!
# Cairn — compiling without going back

Whether a left operand is converted is known only when the right one has been
compiled, so the conversion is inserted at an offset that was remembered. Right
operands insert conversions of their own meanwhile. Here is a compiler that never
goes back: it looks up the type of the right operand first, and emits the
conversion of the left one before it compiles the right one.

A chain of operators leans to the left. It can be compiled in a loop: go down to the
leftmost operand, note the operators that are met, and apply them from the inside
out. All offsets that wait for a conversion belong to the innermost operator then.

All three do the same, to every state and for every expression, well typed or not.

## Main definitions

* `Expr.append` — the compiler that only appends.
* `Expr.walk`   — the compiler that goes down chains of operators in a loop.

## Main statements

* `Expr.compile_eq_append`, `Expr.walk_eq_compile` — the compilers agree.
* `Expr.code_binary` — where the code of a binary operator has conversions.
* `Expr.compile_appends` — all of this, and what is left of the state.
-/

namespace Cairn

open Emitter

-- ---------------------------------------------------------------------------
-- Conversions
-- ---------------------------------------------------------------------------

/-- The operators next to which an integer is converted. -/
def BinaryOp.promotes : BinaryOp → Bool
  | .add | .sub | .mul | .div | .lt | .gt | .eq | .ne => true
  | .mod | .concat | .and | .or => false

/-- The code that converts an operand of type `ty` because of the other one. -/
def BinaryOp.promotion (op : BinaryOp) (ty other : Ty) : Code :=
  if op.promotes ∧ ty = .int ∧ other = .float then [.unary .itof] else []

-- ---------------------------------------------------------------------------
-- The compiler that only appends
-- ---------------------------------------------------------------------------

/-- Applies a binary operator to operands whose code is in place, and the left one of
which is converted already. There is nothing behind the operands if the operator does
not take them. -/
def appendOperator (loc : Location) (op : BinaryOp) (left right : Ty) : StateM Emitter Ty := do
  if left.isError || right.isError then return .error
  match op.check left right with
  | .error fault =>
    report loc fault
    return .error
  | .ok (result, _) =>
    emitAll (op.promotion right left)
    emitAll (op.instructions result)
    return result

/-- Compiles an expression. Code is only ever added behind what there is. -/
def Expr.append : Expr Literal → StateM Emitter Ty
  | .literal _ value => do
    emit (.push value.toValue)
    return value.toValue.ty
  | .name loc x => do
    match ← typeOf? x with
    | some ty =>
      emit (.load x)
      return ty
    | none =>
      report loc (.undeclared x)
      return .error
  | .group _ inner => inner.append
  | .unary loc op operand => do
    let ty ← operand.append
    if ty.isError then return .error
    match op.check ty with
    | .ok result =>
      emit op.instruction
      return result
    | .error fault =>
      report loc fault
      return .error
  | .binary loc op left right => do
    let leftTy ← left.append
    emitAll (op.promotion leftTy (right.ty (← get).symbols))
    let rightTy ← right.append
    appendOperator loc op leftTy rightTy
  | .assign _ target value => do
    let ty ← value.append
    compileAssignment target ty
  | .ternary loc cond onTrue onFalse => do
    let otherwise ← freshLabel
    let done ← freshLabel
    let condTy ← cond.append
    checkCondition cond.loc condTy
    emit (.fjmp otherwise)
    let trueTy ← onTrue.append
    emit (.jmp done)
    emit (.label otherwise)
    let falseTy ← onFalse.append
    emit (.label done)
    checkBranches loc condTy trueTy falseTy

-- ---------------------------------------------------------------------------
-- The compiler that walks
-- ---------------------------------------------------------------------------

/-- An operator whose left operand is still to be compiled: where it stands, and
how its right operand is compiled. -/
structure Pending where
  loc : Location
  op : BinaryOp
  right : StateM Emitter Ty

/-- Applies operators one after the other. The code of the first one's left operand
is in place, and that operand has the given type. -/
def applyPending : List Pending → Ty → StateM Emitter Ty
  | [], ty => return ty
  | p :: rest, ty => do
    let leftEnd ← offset
    let rightTy ← p.right
    let ty ← compileOperator p.loc p.op ty rightTy leftEnd
    applyPending rest ty

/-- Compiles an expression that is the left operand of the first operator on the
list, which is that of the second one with its operator applied, and so on. -/
def Expr.walk : Expr Literal → List Pending → StateM Emitter Ty
  | .binary loc op left right, met => left.walk (⟨loc, op, right.walk []⟩ :: met)
  | .literal _ value, met => do
    emit (.push value.toValue)
    applyPending met value.toValue.ty
  | .name loc x, met => do
    match ← typeOf? x with
    | some ty =>
      emit (.load x)
      applyPending met ty
    | none =>
      report loc (.undeclared x)
      applyPending met .error
  | .group _ inner, met => do
    let ty ← inner.walk []
    applyPending met ty
  | .unary loc op operand, met => do
    let ty ← operand.walk []
    if ty.isError then applyPending met .error
    else
      match op.check ty with
      | .ok result =>
        emit op.instruction
        applyPending met result
      | .error fault =>
        report loc fault
        applyPending met .error
  | .assign _ target value, met => do
    let ty ← value.walk []
    let ty ← compileAssignment target ty
    applyPending met ty
  | .ternary loc cond onTrue onFalse, met => do
    let otherwise ← freshLabel
    let done ← freshLabel
    let condTy ← cond.walk []
    checkCondition cond.loc condTy
    emit (.fjmp otherwise)
    let trueTy ← onTrue.walk []
    emit (.jmp done)
    emit (.label otherwise)
    let falseTy ← onFalse.walk []
    emit (.label done)
    let ty ← checkBranches loc condTy trueTy falseTy
    applyPending met ty

theorem bind_applyPending_nil (x : StateM Emitter Ty) : x >>= applyPending [] = x := rfl

/-- **Walking down a chain** compiles the expression and applies the operators that
were met before. -/
theorem Expr.walk_eq (e : Expr Literal) (met : List Pending) :
    e.walk met = e.compile >>= applyPending met := by
  induction e generalizing met with
  | literal loc value => rfl
  | name loc x =>
    funext s
    simp only [walk, compile, emitter_bind_apply, typeOf?_apply]
    cases s.symbols.find? x <;> rfl
  | group loc inner ih => rw [walk, ih []]; rfl
  | unary loc op operand ih =>
    funext s
    rw [walk, ih [], bind_applyPending_nil]
    simp only [compile, emitter_bind_apply]
    by_cases herr : (operand.compile s).1.isError = true
    · simp only [herr, if_true]; rfl
    · cases hcheck : op.check (operand.compile s).1 <;> simp only [herr] <;> rfl
  | binary loc op left right ihl ihr =>
    -- the operator becomes the first one to apply behind the left operand
    rw [walk, ihl, ihr [], bind_applyPending_nil]
    rfl
  | assign loc target value ih => rw [walk, ih []]; rfl
  | ternary loc cond onTrue onFalse ihc iht ihf =>
    rw [walk, ihc [], iht [], ihf []]
    rfl

theorem Expr.walk_eq_compile (e : Expr Literal) : e.walk [] = e.compile :=
  e.walk_eq []

-- ---------------------------------------------------------------------------
-- Where the conversions are
-- ---------------------------------------------------------------------------

namespace BinaryOp

/-- What the type rule says about conversions, read off the types of the operands. -/
theorem promotion_of_judge (op : BinaryOp) (loc : Location) (left right : Ty) :
    (op.judge loc left right).code (fun r => r.2.onLeft) = op.promotion left right ∧
      (op.judge loc left right).code (fun r => r.2.onRight) = op.promotion right left := by
  cases op <;> cases left <;> cases right <;> exact ⟨rfl, rfl⟩

/-- The code that applies a binary operator, if its operands have types that it takes. -/
def application (op : BinaryOp) (loc : Location) (left right : Ty) : Code :=
  (op.judge loc left right).code fun r => op.instructions r.1

theorem itof_not_mem_application (op : BinaryOp) (loc : Location) (left right : Ty) :
    Instruction.unary .itof ∉ op.application loc left right := by
  rw [application]
  cases op.judge loc left right with
  | error ds => simp
  | ok r => cases op <;> simp [instructions]

end BinaryOp

theorem Verdict.code_append {α : Type} (f g : α → Code) (v : Verdict α) :
    v.code (fun a => f a ++ g a) = v.code f ++ v.code g := by
  cases v <;> simp

/-- **The code of a binary operator.** Each operand is followed by its conversion, if
it has one. -/
theorem Expr.code_binary (Γ : Symbols) (n : Nat) (loc : Location) (op : BinaryOp)
    (left right : Expr Literal) :
    (Expr.binary loc op left right).code Γ n =
      left.code Γ n ++ op.promotion (left.ty Γ) (right.ty Γ) ++
        right.code Γ (n + left.labelCount) ++ op.promotion (right.ty Γ) (left.ty Γ) ++
        op.application loc (left.ty Γ) (right.ty Γ) := by
  obtain ⟨hleft, hright⟩ := op.promotion_of_judge loc (left.ty Γ) (right.ty Γ)
  rw [← hleft, ← hright, BinaryOp.application, List.append_assoc _ _ (Verdict.code _ _),
    ← Verdict.code_append]
  rfl

theorem appendOperator_apply (loc : Location) (op : BinaryOp) (left right : Ty) (s : Emitter) :
    appendOperator loc op left right s =
      (Verdict.ty ((op.judge loc left right).map Prod.fst),
        s.extend (op.promotion right left ++ op.application loc left right) 0
          (op.judge loc left right).faults) := by
  obtain ⟨-, hright⟩ := op.promotion_of_judge loc left right
  rw [← hright, BinaryOp.application]
  by_cases herr : (left.isError || right.isError) = true
  · simp [appendOperator, BinaryOp.judge, herr, Except.map]
  · rw [BinaryOp.judge, if_neg herr] at hright
    cases hcheck : op.check left right with
    | error fault => simp [appendOperator, BinaryOp.judge, herr, hcheck, Except.map]
    | ok result =>
      rw [hcheck] at hright
      simp [appendOperator, BinaryOp.judge, herr, hcheck, Except.map, ← hright, extend_extend]

/-- **Appending does what inserting does.** -/
theorem Expr.compile_eq_append (e : Expr Literal) : e.compile = e.append := by
  induction e with
  | literal loc value => rfl
  | name loc x => rfl
  | group loc inner ih => exact ih
  | unary loc op operand ih => exact congrArg (· >>= _) ih
  | binary loc op left right ihl ihr =>
    funext s
    let τ := left.ty s.symbols
    let σ := right.ty s.symbols
    let n := s.nextLabel.toNat
    -- the states behind the left operand and behind its conversion
    let u := s.extend (left.code s.symbols n) left.labelCount (left.faults s.symbols)
    let t := u.extend (op.promotion τ σ) 0 []
    have ht : t.nextLabel = UInt32.ofNat (n + left.labelCount) :=
      extend_nextLabel u _ 0 _ (extend_nextLabel s _ _ _ UInt32.ofNat_toNat.symm)
    have hright : right.compile t = (σ, t.extend (right.code s.symbols (n + left.labelCount))
        right.labelCount (right.faults s.symbols)) :=
      right.compile_adds s.symbols (n + left.labelCount) t rfl ht
    rw [compile_apply, append, emitter_bind_apply, ← ihl, compile_apply, ← ihr]
    show _ = appendOperator loc op τ (right.compile (emitAll (op.promotion τ σ) u).2).1
      (right.compile (emitAll (op.promotion τ σ) u).2).2
    rw [emitAll_apply, hright, appendOperator_apply, code_binary]
    simp [t, u, n, τ, σ, extend_extend, ty, labelCount, faults]
  | assign loc target value ih => rw [compile, append, ih]
  | ternary loc cond onTrue onFalse ihc iht ihf => rw [compile, append, ihc, iht, ihf]

-- Two pending operators wait while the right operand of the inner one inserts a
-- conversion of its own.
example :
    let loc : Location := .between { } { }
    let int (i : Int64) : Expr Literal := .literal loc (.int i)
    let half : Expr Literal := .literal loc (.float .zero)
    let e : Expr Literal := .binary loc .lt (.binary loc .add (int 1) (.group loc
      (.binary loc .mul (int 2) half))) (int 3)
    (e.compile .start).2.code =
      [.push (.int 1), .unary .itof, .push (.int 2), .unary .itof, .push (.float .zero),
        .binary (.mul .float), .binary (.add .float), .push (.int 3), .unary .itof,
        .binary .lt] := by
  decide +kernel

end Cairn
