import Cairn.Proofs.Preservation

/-!
# Cairn — choices between an integer and a floating point number

A choice between an integer and a floating point number has the type of the
latter, and its value may be the integer. Three ways to go on with it are
compared, each a `Policy`. The integer may be *kept*, which is what programs
mean. It may be *promoted*, that is, converted as soon as the choice is made. In
between, it may be kept and *guarded*: a use that could tell it from its
conversion is refused.

Only three uses take a floating point operand as it is: its sign is changed, it
is compared with another one, or it is written. Everything else converts it.

## Main definitions

* `Use.harmless`   — uses that cannot tell an integer from its conversion.
* `Expr.evalBy`, `Stmt.RunsBy`, `Program.RunsBy` — meanings under a policy.

## Main statements

* `Stmt.runsBy_kept` — keeping integers is what programs mean.
-/

namespace Cairn

-- ---------------------------------------------------------------------------
-- Policies
-- ---------------------------------------------------------------------------

/-- What is done about an integer that is the value of a floating point
expression. -/
inductive Policy where
  /-- It stays an integer. -/
  | kept
  /-- It stays an integer, and is not used where that could be seen. -/
  | guarded
  /-- There is none, since the branches of a choice are converted. -/
  | promoted
deriving DecidableEq, Repr

/-- A use of floating point operands as they are. -/
inductive Use where
  | negated (v : Value)
  | compared (a b : Value)
  | written (v : Value)
deriving DecidableEq, Repr

/-- The use does not tell an integer from its conversion. There is a negative zero
among floating point numbers, and the least integer is its own negative. Two
integers may have the same conversion, and one may be written in another way. -/
def Use.harmless : Use → Bool
  | .negated (.int i) => i ≠ 0 ∧ i ≠ Int64.minValue
  | .compared (.int i) (.int j) => i = j ∨ ¬ (intToDouble i).eq (intToDouble j)
  | .written v => v.widen.text = v.text
  | _ => true

/-- The fault of a use that is refused. No other fault of a checked program is
one of types. -/
def Fault.refusal : Fault :=
  .typeFault "itof" Ty.int.name

/-- An operator that compares its operands. -/
def BinaryOp.compares : BinaryOp → Bool
  | .lt | .gt | .eq | .ne => true
  | _ => false

namespace Policy

/-- Whether a use of floating point operands is refused. -/
def refuses : Policy → Use → Bool
  | .guarded, use => !use.harmless
  | _, _ => false

/-- The value of a choice of the given type, whose branch had a type and a value. -/
def chosen : Policy → Ty → Ty → Value → Value
  | .promoted, ty, branch, v => v.stored (some ty) branch
  | _, _, _, v => v

/-- The result of a unary operator on an operand of the given type. -/
def unary (p : Policy) (op : UnaryOp) (operand : Ty) (v : Value) : Except Fault Value :=
  if operand = .float ∧ p.refuses (.negated v) then .error .refusal else op.eval v

/-- The result of a binary operator on operands of the given types. -/
def binary (p : Policy) (op : BinaryOp) (left right : Ty) (a b : Value) : Except Fault Value :=
  if op.compares ∧ left = .float ∧ right = .float ∧ p.refuses (.compared a b) then .error .refusal
  else op.eval left right a b

/-- A value of the given type, to be written. -/
def shown (p : Policy) (ty : Ty) (v : Value) : Except Fault Value :=
  if ty = .float ∧ p.refuses (.written v) then .error .refusal else .ok v

theorem kept_ne : kept ≠ guarded := by decide

theorem promoted_ne : promoted ≠ guarded := by decide

section

variable {p : Policy} (hp : p ≠ .guarded)

include hp

theorem refuses_eq (use : Use) : p.refuses use = false := by
  cases p with
  | guarded => exact absurd rfl hp
  | _ => rfl

theorem unary_eq (op : UnaryOp) (operand : Ty) (v : Value) : p.unary op operand v = op.eval v := by
  rw [unary, refuses_eq hp, if_neg fun h => Bool.false_ne_true h.2]

theorem binary_eq (op : BinaryOp) (left right : Ty) (a b : Value) :
    p.binary op left right a b = op.eval left right a b := by
  rw [binary, refuses_eq hp, if_neg fun h => Bool.false_ne_true h.2.2.2]

theorem shown_eq (ty : Ty) (v : Value) : p.shown ty v = .ok v := by
  rw [shown, refuses_eq hp, if_neg fun h => Bool.false_ne_true h.2]

end

end Policy

-- ---------------------------------------------------------------------------
-- Expressions
-- ---------------------------------------------------------------------------

/-- The value of an expression, under a policy and the table of declared names. -/
def Expr.evalBy (p : Policy) (Γ : Symbols) : Expr Literal → Effect Value
  | .literal _ value => return value.toValue
  | .name _ x => do
    match (← get).store.find? x with
    | some v => return v
    | none => throw (.undefinedVariable x)
  | .group _ inner => inner.evalBy p Γ
  | .unary _ op operand => do
    let v ← operand.evalBy p Γ
    .ofExcept (p.unary op (operand.ty Γ) v)
  | .binary _ op left right => do
    let a ← left.evalBy p Γ
    let b ← right.evalBy p Γ
    .ofExcept (p.binary op (left.ty Γ) (right.ty Γ) a b)
  | .assign _ target value => do
    let v ← value.evalBy p Γ
    let stored := v.stored (Γ.find? target.name) (value.ty Γ)
    modify (·.set target.name stored)
    return stored
  | .ternary loc cond onTrue onFalse => do
    let ty := (Expr.ternary loc cond onTrue onFalse).ty Γ
    let v ← cond.evalBy p Γ
    if ← Effect.truth v then
      let a ← onTrue.evalBy p Γ
      return p.chosen ty (onTrue.ty Γ) a
    else
      let b ← onFalse.evalBy p Γ
      return p.chosen ty (onFalse.ty Γ) b

/-- The truth value of a condition. -/
def Expr.testBy (p : Policy) (Γ : Symbols) (cond : Expr Literal) : Effect Bool := do
  let v ← cond.evalBy p Γ
  Effect.truth v

/-- The values of expressions that are to be written. -/
def showAll (p : Policy) (Γ : Symbols) : List (Expr Literal) → Effect (List Value)
  | [] => return []
  | e :: rest => do
    let v ← e.evalBy p Γ
    let v ← .ofExcept (p.shown (e.ty Γ) v)
    let vs ← showAll p Γ rest
    return v :: vs

/-- Writes values in their order, and ends the line. -/
def writeBy (p : Policy) (Γ : Symbols) (exprs : List (Expr Literal)) : Effect Unit := do
  let vs ← showAll p Γ exprs
  modify (·.write (String.join (vs.map Value.text) ++ "\n"))

-- ---------------------------------------------------------------------------
-- Statements
-- ---------------------------------------------------------------------------

/-- Running a statement under a policy has an outcome. Loops are unrolled. -/
inductive Stmt.RunsBy (p : Policy) (Γ : Symbols) (prompt : Bool) :
    Stmt Literal → World → Finish → Prop
  | empty {loc w} : RunsBy p Γ prompt (.empty loc) w (.done w)
  | declaration {loc ty names w} :
    RunsBy p Γ prompt (.declaration loc ty names) w (.done (declareZeros ty names w))
  | expression {loc e w} : RunsBy p Γ prompt (.expression loc e) w (.of (e.evalBy p Γ w))
  | read {loc names w} : RunsBy p Γ prompt (.read loc names) w (.of (readAll Γ prompt names w))
  | write {loc exprs w} : RunsBy p Γ prompt (.write loc exprs) w (.of (writeBy p Γ exprs w))
  | blockNil {loc w} : RunsBy p Γ prompt (.block loc []) w (.done w)
  | blockCons {loc s rest w w' o} :
    RunsBy p Γ prompt s w (.done w') → RunsBy p Γ prompt (.block loc rest) w' o →
      RunsBy p Γ prompt (.block loc (s :: rest)) w o
  | blockFault {loc s rest w f w'} :
    RunsBy p Γ prompt s w (.fault f w') → RunsBy p Γ prompt (.block loc (s :: rest)) w (.fault f w')
  | ifElseTest {loc cond onTrue onFalse w f w'} :
    cond.testBy p Γ w = .error f w' →
      RunsBy p Γ prompt (.ifElse loc cond onTrue onFalse) w (.fault f w')
  | ifElse {loc cond onTrue onFalse w b w' o} :
    cond.testBy p Γ w = .ok b w' → RunsBy p Γ prompt (if b then onTrue else onFalse) w' o →
      RunsBy p Γ prompt (.ifElse loc cond onTrue onFalse) w o
  | ifThen {loc cond onTrue w o} :
    RunsBy p Γ prompt (.ifElse loc cond onTrue (.empty loc)) w o →
      RunsBy p Γ prompt (.ifThen loc cond onTrue) w o
  | whileDo {loc cond body w o} :
    RunsBy p Γ prompt (.ifThen loc cond (.block loc [body, .whileDo loc cond body])) w o →
      RunsBy p Γ prompt (.whileDo loc cond body) w o
  | doWhile {loc body cond w o} :
    RunsBy p Γ prompt (.block loc [body, .whileDo loc cond body]) w o →
      RunsBy p Γ prompt (.doWhile loc body cond) w o

/-- Running a program under a policy has an outcome. -/
def Program.RunsBy (program : Program) (p : Policy) (prompt : Bool) (input : List UInt8)
    (o : Finish) : Prop :=
  program.asBlock.RunsBy p program.symbols prompt (.start input) o

theorem Stmt.RunsBy.of_eval {p : Policy} {Γ : Symbols} {prompt : Bool} {loc : Location}
    {e : Expr Literal} {w : World} {o : Finish} (h : .of (e.evalBy p Γ w) = o) :
    RunsBy p Γ prompt (.expression loc e) w o :=
  h ▸ .expression

theorem Stmt.RunsBy.of_write {p : Policy} {Γ : Symbols} {prompt : Bool} {loc : Location}
    {exprs : List (Expr Literal)} {w : World} {o : Finish} (h : .of (writeBy p Γ exprs w) = o) :
    RunsBy p Γ prompt (.write loc exprs) w o :=
  h ▸ .write

/-- A run has one outcome. -/
theorem Stmt.RunsBy.unique {p : Policy} {Γ : Symbols} {prompt : Bool} {s : Stmt Literal} {w : World}
    {o o' : Finish} (h : RunsBy p Γ prompt s w o) (h' : RunsBy p Γ prompt s w o') : o = o' := by
  induction h generalizing o' with
  | empty | declaration | expression | read | write | blockNil =>
    cases h'
    rfl
  | blockCons _ _ ihs ihrest =>
    cases h' with
    | blockCons hs hrest =>
      cases ihs hs
      exact ihrest hrest
    | blockFault hs => cases ihs hs
  | blockFault _ ih =>
    cases h' with
    | blockCons hs _ => cases ih hs
    | blockFault hs => exact ih hs
  | ifElseTest htest =>
    cases h' with
    | ifElseTest htest' =>
      cases htest.symm.trans htest'
      rfl
    | ifElse htest' _ => cases htest.symm.trans htest'
  | ifElse htest _ ih =>
    cases h' with
    | ifElseTest htest' => cases htest.symm.trans htest'
    | ifElse htest' hrun =>
      cases htest.symm.trans htest'
      exact ih hrun
  | ifThen _ ih =>
    cases h' with
    | ifThen hrun => exact ih hrun
  | whileDo _ ih =>
    cases h' with
    | whileDo hrun => exact ih hrun
  | doWhile _ ih =>
    cases h' with
    | doWhile hrun => exact ih hrun

-- ---------------------------------------------------------------------------
-- Keeping integers
-- ---------------------------------------------------------------------------

section

variable {Γ : Symbols} {prompt : Bool}

theorem Expr.evalBy_kept (e : Expr Literal) : e.evalBy .kept Γ = e.eval Γ := by
  induction e with
  | literal | name => rfl
  | group loc inner ih => exact ih
  | unary loc op operand ih => simp only [evalBy, eval, ih, Policy.unary_eq Policy.kept_ne]
  | binary loc op left right ihl ihr =>
    simp only [evalBy, eval, ihl, ihr, Policy.binary_eq Policy.kept_ne]
  | assign loc target value ih => simp only [evalBy, eval, ih]
  | ternary loc cond onTrue onFalse ihc iht ihf =>
    simp only [evalBy, eval, ihc, iht, ihf, Policy.chosen, bind_pure]

theorem Expr.testBy_kept (e : Expr Literal) : e.testBy .kept Γ = e.test Γ := by
  rw [testBy, test, evalBy_kept]

theorem showAll_kept (exprs : List (Expr Literal)) : showAll .kept Γ exprs = evalAll Γ exprs := by
  induction exprs with
  | nil => rfl
  | cons e rest ih =>
    simp only [showAll, evalAll, ih, Expr.evalBy_kept, Policy.shown_eq Policy.kept_ne,
      Effect.ofExcept, pure_bind]

theorem writeBy_kept (exprs : List (Expr Literal)) : writeBy .kept Γ exprs = writeAll Γ exprs := by
  rw [writeBy, writeAll, showAll_kept]

/-- A loop runs as it does when it is unrolled once. -/
theorem Stmt.Runs.of_unrolled {loc : Location} {cond : Expr Literal} {body : Stmt Literal}
    {w : World} {o : Finish}
    (h : Runs Γ prompt (.ifThen loc cond (.block loc [body, .whileDo loc cond body])) w o) :
    Runs Γ prompt (.whileDo loc cond body) w o := by
  cases h with
  | ifThenTest htest => exact .whileTest htest
  | ifThenFalse htest => exact .whileFalse htest
  | ifThenTrue htest hbody =>
    cases hbody with
    | blockFault hfault => exact .whileBody htest hfault
    | blockCons hdone hagain =>
      cases hagain with
      | blockFault hfault => exact .whileTrue htest hdone hfault
      | blockCons hloop hend =>
        cases hend
        exact .whileTrue htest hdone hloop

/-- A loop that tests at its end runs its body, and then as one that tests in front. -/
theorem Stmt.Runs.of_while {loc : Location} {cond : Expr Literal} {body : Stmt Literal}
    {w w' : World} {o : Finish} (hbody : Runs Γ prompt body w (.done w'))
    (h : Runs Γ prompt (.whileDo loc cond body) w' o) :
    Runs Γ prompt (.doWhile loc body cond) w o := by
  generalize hs : Stmt.whileDo loc cond body = s at h
  induction h generalizing w with
  | whileTest htest =>
    cases hs
    exact .doTest hbody htest
  | whileFalse htest =>
    cases hs
    exact .doFalse hbody htest
  | whileBody htest hfault =>
    cases hs
    exact .doTrue hbody htest (.doBody hfault)
  | whileTrue htest hagain _ _ ih =>
    cases hs
    exact .doTrue hbody htest (ih hagain rfl)
  | _ => cases hs

theorem Stmt.Runs.of_runsBy {s : Stmt Literal} {w : World} {o : Finish}
    (h : RunsBy .kept Γ prompt s w o) : Runs Γ prompt s w o := by
  induction h with
  | empty => exact .empty
  | declaration => exact .declaration
  | expression =>
    rw [Expr.evalBy_kept]
    exact .expression
  | read => exact .read
  | write =>
    rw [writeBy_kept]
    exact .write
  | blockNil => exact .blockNil
  | blockCons _ _ ihs ihrest => exact .blockCons ihs ihrest
  | blockFault _ ih => exact .blockFault ih
  | ifElseTest htest => exact .ifElseTest (Expr.testBy_kept _ ▸ htest)
  | @ifElse _ _ _ _ _ b _ _ htest _ ih =>
    rw [Expr.testBy_kept] at htest
    cases b with
    | true => exact .ifElseTrue htest ih
    | false => exact .ifElseFalse htest ih
  | ifThen _ ih =>
    cases ih with
    | ifElseTest htest => exact .ifThenTest htest
    | ifElseTrue htest hrun => exact .ifThenTrue htest hrun
    | ifElseFalse htest hrun =>
      cases hrun
      exact .ifThenFalse htest
  | whileDo _ ih => exact .of_unrolled ih
  | doWhile _ ih =>
    cases ih with
    | blockFault hfault => exact .doBody hfault
    | blockCons hdone hrest =>
      cases hrest with
      | blockFault hfault => exact .of_while hdone hfault
      | blockCons hloop hend =>
        cases hend
        exact .of_while hdone hloop

theorem Stmt.RunsBy.single {p : Policy} {loc : Location} {s : Stmt Literal} {w : World} {o : Finish}
    (h : RunsBy p Γ prompt s w o) : RunsBy p Γ prompt (.block loc [s]) w o := by
  cases o with
  | done w' => exact .blockCons h .blockNil
  | fault f w' => exact .blockFault h

theorem Expr.testBy_of_test {cond : Expr Literal} {w : World}
    {r : EStateM.Result Fault World Bool} (h : cond.test Γ w = r) : cond.testBy .kept Γ w = r := by
  rw [testBy_kept, h]

theorem Stmt.Runs.toRunsBy {s : Stmt Literal} {w : World} {o : Finish} (h : Runs Γ prompt s w o) :
    RunsBy .kept Γ prompt s w o := by
  induction h with
  | empty => exact .empty
  | declaration => exact .declaration
  | expression =>
    rw [← Expr.evalBy_kept]
    exact .expression
  | read => exact .read
  | write =>
    rw [← writeBy_kept]
    exact .write
  | blockNil => exact .blockNil
  | blockCons _ _ ihs ihrest => exact .blockCons ihs ihrest
  | blockFault _ ih => exact .blockFault ih
  | ifThenTest htest => exact .ifThen (.ifElseTest (Expr.testBy_of_test htest))
  | ifThenTrue htest _ ih => exact .ifThen (.ifElse (Expr.testBy_of_test htest) ih)
  | ifThenFalse htest => exact .ifThen (.ifElse (Expr.testBy_of_test htest) .empty)
  | ifElseTest htest => exact .ifElseTest (Expr.testBy_of_test htest)
  | ifElseTrue htest _ ih => exact .ifElse (Expr.testBy_of_test htest) ih
  | ifElseFalse htest _ ih => exact .ifElse (Expr.testBy_of_test htest) ih
  | whileTest htest => exact .whileDo (.ifThen (.ifElseTest (Expr.testBy_of_test htest)))
  | whileFalse htest => exact .whileDo (.ifThen (.ifElse (Expr.testBy_of_test htest) .empty))
  | whileBody htest _ ih =>
    exact .whileDo (.ifThen (.ifElse (Expr.testBy_of_test htest) (.blockFault ih)))
  | whileTrue htest _ _ ihbody ihagain =>
    refine .whileDo (.ifThen (.ifElse (Expr.testBy_of_test htest) ?_))
    exact .blockCons ihbody ihagain.single
  | doBody _ ih => exact .doWhile (.blockFault ih)
  | doTest _ htest ih =>
    refine .doWhile (.blockCons ih (.blockFault ?_))
    exact .whileDo (.ifThen (.ifElseTest (Expr.testBy_of_test htest)))
  | doFalse _ htest ih =>
    refine .doWhile (.blockCons ih (.single ?_))
    exact .whileDo (.ifThen (.ifElse (Expr.testBy_of_test htest) .empty))
  | doTrue _ htest _ ihbody ihagain =>
    refine .doWhile (.blockCons ihbody (.single ?_))
    cases ihagain with
    | doWhile hrounds => exact .whileDo (.ifThen (.ifElse (Expr.testBy_of_test htest) hrounds))

/-- **Keeping integers is what programs mean.** -/
theorem Stmt.runsBy_kept {s : Stmt Literal} {w : World} {o : Finish} :
    RunsBy .kept Γ prompt s w o ↔ Runs Γ prompt s w o :=
  ⟨.of_runsBy, fun h => h.toRunsBy⟩

end

end Cairn
