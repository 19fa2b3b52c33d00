import Cairn.Machine.Input
import Cairn.Machine.Operators
import Cairn.Proofs.Statement

/-!
# Cairn — what a program means

The meaning of a program is given on its tree, without code, labels or a stack.
An expression is evaluated in a world: the values of the names, the input that
is left and what was written. Statements may run forever, so running one is a
relation between the world in front of it and its outcome.

Operands are evaluated from left to right, both of them for every operator.
Types decide what is converted: an integer next to a floating point number, and
an integer that is stored into a floating point name. The branches of a choice
are not converted, so a choice between an integer and a floating point number
may have an integer as its value although its type is that of the other.

## Main definitions

* `Expr.eval`    — the value of an expression, with its effects.
* `Stmt.Runs`    — the outcomes of a statement.
* `Program.Runs` — the outcomes of a program.
-/

namespace Cairn

-- ---------------------------------------------------------------------------
-- Computations that may fault
-- ---------------------------------------------------------------------------

/-- The weakest condition under which a computation ends as wanted: with a value
and a state in `K`, or with a fault and a state in `F`. -/
def wp {σ α : Type} (x : EStateM Fault σ α) (K : α → σ → Prop) (F : Fault → σ → Prop) (s : σ) :
    Prop :=
  match x s with
  | .ok a s' => K a s'
  | .error f s' => F f s'

section

variable {σ α β : Type} {x : EStateM Fault σ α} {K K₁ K₂ : α → σ → Prop}
  {F F₁ F₂ : Fault → σ → Prop} {s : σ}

theorem wp_pure (a : α) : wp (pure a) K F s ↔ K a s := Iff.rfl

theorem wp_throw (f : Fault) : wp (throw f : EStateM Fault σ α) K F s ↔ F f s := Iff.rfl

theorem wp_get {K : σ → σ → Prop} : wp get K F s ↔ K s s := Iff.rfl

theorem wp_set {K : Unit → σ → Prop} (t : σ) : wp (set t) K F s ↔ K () t := Iff.rfl

theorem wp_bind {f : α → EStateM Fault σ β} {K : β → σ → Prop} :
    wp (x >>= f) K F s ↔ wp x (fun a => wp (f a) K F) F s := by
  show (match EStateM.bind x f s with | .ok a s' => K a s' | .error f s' => F f s') ↔ _
  rw [EStateM.bind, wp]
  cases x s <;> exact Iff.rfl

/-- Two things that hold at the end of a computation hold together. -/
theorem wp.imp (h₁ : wp x K₁ F₁ s) (h₂ : wp x K₂ F₂ s)
    (hK : ∀ a s', K₁ a s' → K₂ a s' → K a s') (hF : ∀ f s', F₁ f s' → F₂ f s' → F f s') :
    wp x K F s := by
  rw [wp] at h₁ h₂ ⊢
  cases hx : x s with
  | ok a s' =>
    rw [hx] at h₁ h₂
    exact hK a s' h₁ h₂
  | error f s' =>
    rw [hx] at h₁ h₂
    exact hF f s' h₁ h₂

theorem wp.of_ok (h : wp x K F s) {a : α} {s' : σ} (hx : x s = .ok a s') : K a s' := by
  rwa [wp, hx] at h

theorem wp.of_error (h : wp x K F s) {f : Fault} {s' : σ} (hx : x s = .error f s') : F f s' := by
  rwa [wp, hx] at h

theorem wp_of_forall (hK : ∀ a s', K a s') (hF : ∀ f s', F f s') : wp x K F s := by
  rw [wp]
  cases x s with
  | ok a s' => exact hK a s'
  | error f s' => exact hF f s'

theorem wp.mono (h : wp x K₁ F₁ s) (hK : ∀ a s', K₁ a s' → K a s')
    (hF : ∀ f s', F₁ f s' → F f s') : wp x K F s :=
  h.imp h (fun a s' h _ => hK a s' h) (fun f s' h _ => hF f s' h)

end

-- ---------------------------------------------------------------------------
-- Worlds
-- ---------------------------------------------------------------------------

/-- All that a program works on. -/
structure World where
  store : Bindings Value
  /-- The bytes still to be read. -/
  input : List UInt8
  /-- All that was written. -/
  output : String
deriving DecidableEq, Repr

namespace World

/-- The world in front of a program. -/
def start (input : List UInt8) : World :=
  ⟨.empty, input, ""⟩

/-- The world in which a name has a value. -/
def set (w : World) (x : String) (v : Value) : World :=
  { w with store := w.store.insert x v }

/-- The world after writing a text. -/
def write (w : World) (text : String) : World :=
  { w with output := w.output ++ text }

end World

/-- An effect on the world. It may fault, and then keeps what it did. -/
abbrev Effect := EStateM Fault World

/-- A result as an effect that does nothing else. -/
def Effect.ofExcept {α : Type} : Except Fault α → Effect α
  | .ok a => pure a
  | .error fault => throw fault

-- ---------------------------------------------------------------------------
-- Operators
-- ---------------------------------------------------------------------------

namespace Value

/-- An integer as a floating point number; other values stay. -/
def widen : Value → Value
  | .int i => .float (intToDouble i)
  | v => v

/-- A number as a floating point number. -/
def double? : Value → Option Double
  | .int i => some (intToDouble i)
  | .float x => some x
  | _ => none

/-- A value of the given type as it is stored into a name: an integer is
converted if the name is a floating point one. -/
def stored (target : Option Ty) (ty : Ty) (v : Value) : Value :=
  if target = some .float ∧ ty = .int then v.widen else v

end Value

/-- A left operand behind its conversion, if it is the one to be converted. -/
def Widening.convertLeft : Widening → Value → Value
  | .left, a => a.widen
  | _, a => a

/-- A right operand behind its conversion, if it is the one to be converted. -/
def Widening.convertRight : Widening → Value → Value
  | .right, b => b.widen
  | _, b => b

/-- Arithmetic on operands of the given types. It is one on integers only if
both of them are. -/
def Arithmetic.eval (op : Arithmetic) (symbol : String) (left right : Ty) (a b : Value) :
    Except Fault Value :=
  if left = .int ∧ right = .int then
    match a, b with
    | .int i, .int j => (op.onInts i j).map .int
    | _, _ => .error (.ofOperands symbol a b)
  else
    match a.double?, b.double? with
    | some x, some y => .ok (.float (op.onDoubles x y))
    | _, _ => .error (.ofOperands symbol a b)

/-- Compares two numbers, as integers if both of them are. -/
def compareNumbers (symbol : String) (onInts : Int64 → Int64 → Bool)
    (onDoubles : Double → Double → Bool) (a b : Value) : Except Fault Bool :=
  match a, b with
  | .int i, .int j => .ok (onInts i j)
  | a, b =>
    match a.double?, b.double? with
    | some x, some y => .ok (onDoubles x y)
    | _, _ => .error (.ofOperands symbol a b)

/-- Equality of two truth values, two texts or two numbers. -/
def equalValues (symbol : String) (a b : Value) : Except Fault Bool :=
  match a, b with
  | .bool p, .bool q => .ok (p == q)
  | .str s, .str t => .ok (s == t)
  | a, b => compareNumbers symbol (· == ·) Double.eq a b

/-- The result of a binary operator on operands of the given types. -/
def BinaryOp.eval (op : BinaryOp) (left right : Ty) (a b : Value) : Except Fault Value :=
  let a' := (Widening.ofTypes left right).convertLeft a
  let b' := (Widening.ofTypes left right).convertRight b
  match op with
  | .add => Arithmetic.add.eval op.text left right a b
  | .sub => Arithmetic.sub.eval op.text left right a b
  | .mul => Arithmetic.mul.eval op.text left right a b
  | .div => Arithmetic.div.eval op.text left right a b
  | .mod =>
    match a, b with
    | .int i, .int j => if j = 0 then .error .divisionByZero else .ok (.int (i % j))
    | _, _ => .error (.ofOperands op.text a b)
  | .concat =>
    match a, b with
    | .str s, .str t => .ok (.str (s ++ t))
    | _, _ => .error (.ofOperands op.text a b)
  | .lt => (compareNumbers op.text (fun i j => i < j) Double.lt a' b').map .bool
  | .gt => (compareNumbers op.text (fun i j => j < i) (fun x y => y.lt x) a' b').map .bool
  | .eq => (equalValues op.text a' b').map .bool
  | .ne => (equalValues op.text a' b').map fun same => .bool !same
  | .and =>
    match a, b with
    | .bool p, .bool q => .ok (.bool (p && q))
    | _, _ => .error (.ofOperands op.text a b)
  | .or =>
    match a, b with
    | .bool p, .bool q => .ok (.bool (p || q))
    | _, _ => .error (.ofOperands op.text a b)

/-- The result of a unary operator. -/
def UnaryOp.eval (op : UnaryOp) (v : Value) : Except Fault Value :=
  match op, v with
  | .neg, .int i => .ok (.int (-i))
  | .neg, .float x => .ok (.float x.neg)
  | .not, .bool b => .ok (.bool !b)
  | _, v => .error (.ofOperand op.text v)

-- ---------------------------------------------------------------------------
-- Expressions
-- ---------------------------------------------------------------------------

/-- The truth value of a condition. -/
def Effect.truth (v : Value) : Effect Bool :=
  match v with
  | .bool b => return b
  | v => throw (.ofOperand "?" v)

/-- The value of an expression, under the table of declared names. -/
def Expr.eval (Γ : Symbols) : Expr Literal → Effect Value
  | .literal _ value => return value.toValue
  | .name _ x => do
    match (← get).store.find? x with
    | some v => return v
    | none => throw (.undefinedVariable x)
  | .group _ inner => inner.eval Γ
  | .unary _ op operand => do
    let v ← operand.eval Γ
    .ofExcept (op.eval v)
  | .binary _ op left right => do
    let a ← left.eval Γ
    let b ← right.eval Γ
    .ofExcept (op.eval (left.ty Γ) (right.ty Γ) a b)
  | .assign _ target value => do
    let v ← value.eval Γ
    let stored := v.stored (Γ.find? target.name) (value.ty Γ)
    modify (·.set target.name stored)
    return stored
  | .ternary _ cond onTrue onFalse => do
    let v ← cond.eval Γ
    if ← Effect.truth v then onTrue.eval Γ else onFalse.eval Γ

/-- The truth value of a condition. -/
def Expr.test (Γ : Symbols) (cond : Expr Literal) : Effect Bool := do
  let v ← cond.eval Γ
  Effect.truth v

/-- The values of expressions, evaluated one after the other. -/
def evalAll (Γ : Symbols) : List (Expr Literal) → Effect (List Value)
  | [] => return []
  | e :: rest => do
    let v ← e.eval Γ
    let vs ← evalAll Γ rest
    return v :: vs

-- ---------------------------------------------------------------------------
-- Statements
-- ---------------------------------------------------------------------------

/-- The world in which names have the zero of a type. -/
def declareZeros (ty : Ty) : List Ident → World → World
  | [], w => w
  | x :: rest, w =>
    declareZeros ty rest
      (match ty.zero? with
      | some zero => w.set x.name zero
      | none => w)

/-- Takes one line of input. -/
def inputLine : Effect (List Char) := do
  let w ← get
  if w.input.isEmpty then throw .endOfInput
  else
    set { w with input := (takeLine w.input).2 }
    match ofUtf8? (takeLine w.input).1 with
    | some text => return chomp text.toList
    | none => throw .badEncoding

/-- Takes one line of input as a value. -/
def takeValue (tag : Tag) : Effect Value := do
  let line ← inputLine
  match Value.ofLine? tag line with
  | some v => return v
  | none => throw (.invalidInput tag.ty (String.ofList line))

/-- Takes one line of input as a value, asking for it first if that is wanted. -/
def readValue (prompt : Bool) (tag : Tag) : Effect Value := do
  if prompt then modify (·.write ("Input " ++ tag.ty.name ++ ":\n"))
  takeValue tag

/-- Reads names, each from a line of its own. -/
def readAll (Γ : Symbols) (prompt : Bool) : List Ident → Effect Unit
  | [] => return
  | x :: rest => do
    match readTag? Γ x with
    | some tag =>
      let v ← readValue prompt tag
      modify (·.set x.name v)
    | none => pure ()
    readAll Γ prompt rest

/-- Writes values in their order, and ends the line. -/
def writeAll (Γ : Symbols) (exprs : List (Expr Literal)) : Effect Unit := do
  let vs ← evalAll Γ exprs
  modify (·.write (String.join (vs.map Value.text) ++ "\n"))

/-- How running something ends. -/
inductive Finish where
  | done (world : World)
  | fault (fault : Fault) (world : World)
deriving DecidableEq, Repr

/-- The outcome of an effect, whatever its value. -/
def Finish.of {α : Type} : EStateM.Result Fault World α → Finish
  | .ok _ w => .done w
  | .error f w => .fault f w

/-- Running a statement in a world has an outcome. -/
inductive Stmt.Runs (Γ : Symbols) (prompt : Bool) : Stmt Literal → World → Finish → Prop
  | empty {loc w} : Runs Γ prompt (.empty loc) w (.done w)
  | declaration {loc ty names w} :
    Runs Γ prompt (.declaration loc ty names) w (.done (declareZeros ty names w))
  | expression {loc e w} : Runs Γ prompt (.expression loc e) w (.of (e.eval Γ w))
  | read {loc names w} : Runs Γ prompt (.read loc names) w (.of (readAll Γ prompt names w))
  | write {loc exprs w} : Runs Γ prompt (.write loc exprs) w (.of (writeAll Γ exprs w))
  | blockNil {loc w} : Runs Γ prompt (.block loc []) w (.done w)
  | blockCons {loc s rest w w' o} :
    Runs Γ prompt s w (.done w') → Runs Γ prompt (.block loc rest) w' o →
      Runs Γ prompt (.block loc (s :: rest)) w o
  | blockFault {loc s rest w f w'} :
    Runs Γ prompt s w (.fault f w') → Runs Γ prompt (.block loc (s :: rest)) w (.fault f w')
  | ifThenTest {loc cond onTrue w f w'} :
    cond.test Γ w = .error f w' → Runs Γ prompt (.ifThen loc cond onTrue) w (.fault f w')
  | ifThenTrue {loc cond onTrue w w' o} :
    cond.test Γ w = .ok true w' → Runs Γ prompt onTrue w' o →
      Runs Γ prompt (.ifThen loc cond onTrue) w o
  | ifThenFalse {loc cond onTrue w w'} :
    cond.test Γ w = .ok false w' → Runs Γ prompt (.ifThen loc cond onTrue) w (.done w')
  | ifElseTest {loc cond onTrue onFalse w f w'} :
    cond.test Γ w = .error f w' → Runs Γ prompt (.ifElse loc cond onTrue onFalse) w (.fault f w')
  | ifElseTrue {loc cond onTrue onFalse w w' o} :
    cond.test Γ w = .ok true w' → Runs Γ prompt onTrue w' o →
      Runs Γ prompt (.ifElse loc cond onTrue onFalse) w o
  | ifElseFalse {loc cond onTrue onFalse w w' o} :
    cond.test Γ w = .ok false w' → Runs Γ prompt onFalse w' o →
      Runs Γ prompt (.ifElse loc cond onTrue onFalse) w o
  | whileTest {loc cond body w f w'} :
    cond.test Γ w = .error f w' → Runs Γ prompt (.whileDo loc cond body) w (.fault f w')
  | whileFalse {loc cond body w w'} :
    cond.test Γ w = .ok false w' → Runs Γ prompt (.whileDo loc cond body) w (.done w')
  | whileBody {loc cond body w w' f w''} :
    cond.test Γ w = .ok true w' → Runs Γ prompt body w' (.fault f w'') →
      Runs Γ prompt (.whileDo loc cond body) w (.fault f w'')
  | whileTrue {loc cond body w w' w'' o} :
    cond.test Γ w = .ok true w' → Runs Γ prompt body w' (.done w'') →
      Runs Γ prompt (.whileDo loc cond body) w'' o → Runs Γ prompt (.whileDo loc cond body) w o
  | doBody {loc body cond w f w'} :
    Runs Γ prompt body w (.fault f w') → Runs Γ prompt (.doWhile loc body cond) w (.fault f w')
  | doTest {loc body cond w w' f w''} :
    Runs Γ prompt body w (.done w') → cond.test Γ w' = .error f w'' →
      Runs Γ prompt (.doWhile loc body cond) w (.fault f w'')
  | doFalse {loc body cond w w' w''} :
    Runs Γ prompt body w (.done w') → cond.test Γ w' = .ok false w'' →
      Runs Γ prompt (.doWhile loc body cond) w (.done w'')
  | doTrue {loc body cond w w' w'' o} :
    Runs Γ prompt body w (.done w') → cond.test Γ w' = .ok true w'' →
      Runs Γ prompt (.doWhile loc body cond) w'' o → Runs Γ prompt (.doWhile loc body cond) w o

/-- Running a program on an input has an outcome. -/
def Program.Runs (program : Program) (prompt : Bool) (input : List UInt8) (o : Finish) : Prop :=
  program.asBlock.Runs program.symbols prompt (.start input) o

end Cairn
