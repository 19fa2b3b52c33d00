import Cairn.Proofs.Semantics
import Cairn.Proofs.Typing

/-!
# Cairn — values fit their types

A value of a name of type `int`, `bool` or `string` is of that type. A floating
point name may hold an integer as well, since the branches of a choice are not
converted. Running a program that checks keeps it so, and it faults only for
reasons that no check could see.

## Main statements

* `Expr.eval_sound`  — the value of an expression fits its type.
* `Stmt.Runs.sound`  — running a statement keeps the world typed.
-/

namespace Cairn

-- ---------------------------------------------------------------------------
-- Fitting
-- ---------------------------------------------------------------------------

/-- A value is fit for a name of the given type. -/
def Value.Fits (v : Value) (ty : Ty) : Prop :=
  v.ty = ty ∨ ty = .float ∧ v.ty = .int

instance (v : Value) (ty : Ty) : Decidable (v.Fits ty) :=
  inferInstanceAs (Decidable (_ ∨ _))

/-- Every value of the world fits the type of its name. -/
def World.Typed (Γ : Symbols) (w : World) : Prop :=
  ∀ x v, w.store.find? x = some v → ∃ ty, Γ.find? x = some ty ∧ v.Fits ty

/-- Faults of a limit on the run. -/
def Fault.isLimit : Fault → Bool
  | .stackOverflow _ | .stepLimit _ => true
  | _ => false

/-- Faults that depend on what a program does and reads. -/
def Fault.isDynamic : Fault → Bool
  | .undefinedVariable _ | .divisionByZero | .invalidInput _ _ | .endOfInput | .badEncoding => true
  | _ => false

theorem World.typed_start (Γ : Symbols) (input : List UInt8) : (World.start input).Typed Γ := by
  intro x v hx
  cases hx

theorem World.find?_set (w : World) (x : String) (v : Value) :
    (w.set x v).store.find? x = some v := by
  rw [World.set, Bindings.find?_insert, if_pos rfl]

theorem World.Typed.set {Γ : Symbols} {w : World} (hw : w.Typed Γ) {x : String} {ty : Ty}
    (hx : Γ.find? x = some ty) {v : Value} (hv : v.Fits ty) : (w.set x v).Typed Γ := by
  intro y u hy
  rw [World.set, Bindings.find?_insert] at hy
  split at hy
  next hxy =>
    cases hy
    exact ⟨ty, hxy ▸ hx, hv⟩
  next => exact hw y u hy

theorem World.Typed.write {Γ : Symbols} {w : World} (hw : w.Typed Γ) (text : String) :
    (w.write text).Typed Γ :=
  hw

namespace Value

theorem fits_int {v : Value} (h : v.Fits .int) : ∃ i, v = .int i := by
  cases v <;> simp_all [Fits, ty, tag, Tag.ty]

theorem fits_bool {v : Value} (h : v.Fits .bool) : ∃ b, v = .bool b := by
  cases v <;> simp_all [Fits, ty, tag, Tag.ty]

theorem fits_string {v : Value} (h : v.Fits .string) : ∃ s, v = .str s := by
  cases v <;> simp_all [Fits, ty, tag, Tag.ty]

/-- A value of a numeric type is a number. -/
theorem fits_float {v : Value} (h : v.Fits .float) : (∃ i, v = .int i) ∨ ∃ x, v = .float x := by
  cases v <;> simp_all [Fits, ty, tag, Tag.ty]

/-- Every number is fit for a floating point name. -/
theorem Fits.float {v : Value} {ty : Ty} (h : v.Fits ty) (hty : ty.isNumeric) : v.Fits .float := by
  cases ty <;> cases hty
  case int.refl =>
    obtain ⟨i, rfl⟩ := fits_int h
    exact .inr ⟨rfl, rfl⟩
  case float.refl => exact h

theorem fits_self (v : Value) : v.Fits v.ty :=
  .inl rfl

theorem ty_zero? {ty : Ty} {zero : Value} (h : ty.zero? = some zero) : zero.ty = ty := by
  cases ty <;> cases h <;> rfl

theorem fits_zero {ty : Ty} {zero : Value} (h : ty.zero? = some zero) : zero.Fits ty :=
  .inl (ty_zero? h)

end Value

-- ---------------------------------------------------------------------------
-- Operators
-- ---------------------------------------------------------------------------

theorem UnaryOp.eval_sound {op : UnaryOp} {operand ty : Ty} (hcheck : op.check operand = .ok ty)
    {v : Value} (hv : v.Fits operand) : ∃ u, op.eval v = .ok u ∧ u.Fits ty := by
  cases op <;> cases operand <;> cases hcheck
  case neg.int =>
    obtain ⟨i, rfl⟩ := Value.fits_int hv
    exact ⟨_, rfl, .inl rfl⟩
  case neg.float =>
    rcases Value.fits_float hv with ⟨i, rfl⟩ | ⟨x, rfl⟩
    · exact ⟨_, rfl, .inr ⟨rfl, rfl⟩⟩
    · exact ⟨_, rfl, .inl rfl⟩
  case not.bool =>
    obtain ⟨b, rfl⟩ := Value.fits_bool hv
    exact ⟨_, rfl, .inl rfl⟩

/-- Numbers of the given types, as they meet in an operator. -/
inductive Operands : Ty → Ty → Value → Value → Prop
  | ints (i j : Int64) : Operands .int .int (.int i) (.int j)
  | left (i : Int64) {b : Value} {y : Double} (hb : b.double? = some y) :
    Operands .int .float (.int i) b
  | right {a : Value} {x : Double} (ha : a.double? = some x) (j : Int64) :
    Operands .float .int a (.int j)
  | floats {a b : Value} {x y : Double} (ha : a.double? = some x) (hb : b.double? = some y) :
    Operands .float .float a b

theorem Value.double?_of_fits {v : Value} (h : v.Fits .float) : ∃ x, v.double? = some x := by
  rcases fits_float h with ⟨i, rfl⟩ | ⟨x, rfl⟩
  · exact ⟨_, rfl⟩
  · exact ⟨x, rfl⟩

theorem Operands.of_fits {left right : Ty} (hleft : left.isNumeric) (hright : right.isNumeric)
    {a b : Value} (ha : a.Fits left) (hb : b.Fits right) : Operands left right a b := by
  cases left <;> cases hleft <;> cases right <;> cases hright
  case int.refl.int.refl =>
    obtain ⟨i, rfl⟩ := Value.fits_int ha
    obtain ⟨j, rfl⟩ := Value.fits_int hb
    exact .ints i j
  case int.refl.float.refl =>
    obtain ⟨i, rfl⟩ := Value.fits_int ha
    obtain ⟨y, hy⟩ := Value.double?_of_fits hb
    exact .left i hy
  case float.refl.int.refl =>
    obtain ⟨x, hx⟩ := Value.double?_of_fits ha
    obtain ⟨j, rfl⟩ := Value.fits_int hb
    exact .right hx j
  case float.refl.float.refl =>
    obtain ⟨x, hx⟩ := Value.double?_of_fits ha
    obtain ⟨y, hy⟩ := Value.double?_of_fits hb
    exact .floats hx hy

/-- The operator of an operation of arithmetic. -/
def Arithmetic.toBinaryOp : Arithmetic → BinaryOp
  | .add => .add
  | .sub => .sub
  | .mul => .mul
  | .div => .div

/-- The type of arithmetic on operands of the given types. -/
def Arithmetic.resultTy (left right : Ty) : Ty :=
  if left = .int ∧ right = .int then .int else .float

/-- Types whose values can be equal: two of numbers, or twice the same. -/
def Ty.Comparable (left right : Ty) : Prop :=
  left.isNumeric ∧ right.isNumeric ∨ left = .bool ∧ right = .bool ∨ left = .string ∧ right = .string

/-- What binary operators are defined on, the type of their result and the
operand that is converted. -/
inductive BinaryOp.Rule : BinaryOp → Ty → Ty → Ty → Widening → Prop
  | arithmetic {op : BinaryOp} (kind : Arithmetic) (hop : op = kind.toBinaryOp) {left right : Ty}
    (hleft : left.isNumeric) (hright : right.isNumeric) :
    Rule op left right (Arithmetic.resultTy left right) (.ofTypes left right)
  | mod : Rule .mod .int .int .int .none
  | concat : Rule .concat .string .string .string .none
  | order {op : BinaryOp} (hop : op = .lt ∨ op = .gt) {left right : Ty} (hleft : left.isNumeric)
    (hright : right.isNumeric) : Rule op left right .bool (.ofTypes left right)
  | equality {op : BinaryOp} (hop : op = .eq ∨ op = .ne) {left right : Ty}
    (h : left.Comparable right) : Rule op left right .bool (.ofTypes left right)
  | connective {op : BinaryOp} (hop : op = .and ∨ op = .or) : Rule op .bool .bool .bool .none

theorem BinaryOp.rule_of_arithmetic (kind : Arithmetic) {left right ty : Ty} {w : Widening}
    (h : kind.toBinaryOp.check left right = .ok (ty, w)) :
    Rule kind.toBinaryOp left right ty w := by
  have heach : kind.toBinaryOp.checkEach Ty.isNumeric left right
      (Arithmetic.resultTy left right, .ofTypes left right) = .ok (ty, w) := by
    cases kind <;> exact h
  obtain ⟨hl, hr, hresult⟩ := checkEach_eq_ok.mp heach
  cases hresult
  exact .arithmetic kind rfl hl hr

theorem BinaryOp.rule_of_check {op : BinaryOp} {left right ty : Ty} {w : Widening}
    (hleft : left ≠ .error) (h : op.check left right = .ok (ty, w)) : Rule op left right ty w := by
  cases op
  case add => exact rule_of_arithmetic .add h
  case sub => exact rule_of_arithmetic .sub h
  case mul => exact rule_of_arithmetic .mul h
  case div => exact rule_of_arithmetic .div h
  case mod =>
    obtain ⟨hl, hr, hresult⟩ := checkEach_eq_ok.mp h
    cases hresult
    rw [eq_of_beq hl, eq_of_beq hr]
    exact .mod
  case concat =>
    obtain ⟨hl, hr, hresult⟩ := checkEach_eq_ok.mp h
    cases hresult
    rw [eq_of_beq hl, eq_of_beq hr]
    exact .concat
  case lt | gt =>
    obtain ⟨hl, hr, hresult⟩ := checkEach_eq_ok.mp h
    cases hresult
    exact .order (by decide) hl hr
  case and | or =>
    obtain ⟨hl, hr, hresult⟩ := checkEach_eq_ok.mp h
    cases hresult
    rw [eq_of_beq hl, eq_of_beq hr]
    exact .connective (by decide)
  case eq | ne =>
    rw [check] at h
    split at h
    · next hnum =>
      rw [Bool.and_eq_true] at hnum
      cases h
      exact .equality (by decide) (.inl hnum)
    · next hnum =>
      split at h
      · next heq =>
        cases h
        subst heq
        cases left
        case bool => exact .equality (by decide) (.inr (.inl ⟨rfl, rfl⟩))
        case string => exact .equality (by decide) (.inr (.inr ⟨rfl, rfl⟩))
        all_goals simp_all [Ty.isNumeric]
      · cases h

theorem Arithmetic.onInts_sound (op : Arithmetic) (i j : Int64) :
    (∃ k, op.onInts i j = .ok k) ∨ op.onInts i j = .error .divisionByZero := by
  cases op
  case div =>
    by_cases hj : j = 0
    · exact .inr (by rw [onInts, if_pos hj])
    · exact .inl ⟨i / j, by rw [onInts, if_neg hj]⟩
  all_goals exact .inl ⟨_, rfl⟩

theorem Arithmetic.eval_doubles {op : Arithmetic} {symbol : String} {left right : Ty}
    (hne : ¬ (left = .int ∧ right = .int)) {a b : Value} {x y : Double}
    (ha : a.double? = some x) (hb : b.double? = some y) :
    op.eval symbol left right a b = .ok (.float (op.onDoubles x y)) := by
  unfold eval
  rw [if_neg hne, ha, hb]

theorem Arithmetic.eval_sound (op : Arithmetic) (symbol : String) {left right : Ty} {a b : Value}
    (h : Operands left right a b) :
    (∃ v, op.eval symbol left right a b = .ok v ∧ v.Fits (resultTy left right)) ∨
      op.eval symbol left right a b = .error .divisionByZero := by
  cases h with
  | ints i j =>
    rcases op.onInts_sound i j with ⟨k, hk⟩ | hzero
    · exact .inl ⟨.int k, by simp [eval, hk, Except.map], .inl rfl⟩
    · exact .inr (by simp [eval, hzero, Except.map])
  | left i hb => exact .inl ⟨_, eval_doubles (by decide) rfl hb, .inl rfl⟩
  | right ha j => exact .inl ⟨_, eval_doubles (by decide) ha rfl, .inl rfl⟩
  | floats ha hb => exact .inl ⟨_, eval_doubles (by decide) ha hb, .inl rfl⟩

@[simp] theorem Value.double?_widen (v : Value) : v.widen.double? = v.double? := by
  cases v <;> rfl

theorem Widening.double?_convertLeft (w : Widening) (a : Value) :
    (w.convertLeft a).double? = a.double? := by
  cases w <;> simp [convertLeft]

theorem Widening.double?_convertRight (w : Widening) (b : Value) :
    (w.convertRight b).double? = b.double? := by
  cases w <;> simp [convertRight]

theorem Value.double?_of_numeric {ty : Ty} (hty : ty.isNumeric) {v : Value} (h : v.Fits ty) :
    ∃ x, v.double? = some x := by
  cases ty <;> cases hty
  case int.refl =>
    obtain ⟨i, rfl⟩ := fits_int h
    exact ⟨_, rfl⟩
  case float.refl => exact double?_of_fits h

theorem compareNumbers_sound {symbol : String} {onInts : Int64 → Int64 → Bool}
    {onDoubles : Double → Double → Bool} {a b : Value} {x y : Double} (ha : a.double? = some x)
    (hb : b.double? = some y) : ∃ c, compareNumbers symbol onInts onDoubles a b = .ok c := by
  cases a <;> cases b <;> cases ha <;> cases hb <;> exact ⟨_, rfl⟩

/-- Operands on which an order is defined have one. -/
theorem order_sound {symbol : String} {onInts : Int64 → Int64 → Bool}
    {onDoubles : Double → Double → Bool} {left right : Ty} (hleft : left.isNumeric)
    (hright : right.isNumeric) {a b : Value} (ha : a.Fits left) (hb : b.Fits right)
    (w : Widening) :
    ∃ c, compareNumbers symbol onInts onDoubles (w.convertLeft a) (w.convertRight b) = .ok c := by
  obtain ⟨x, hx⟩ := Value.double?_of_numeric hleft ha
  obtain ⟨y, hy⟩ := Value.double?_of_numeric hright hb
  exact compareNumbers_sound ((w.double?_convertLeft a).trans hx)
    ((w.double?_convertRight b).trans hy)

theorem equalValues_of_numbers {symbol : String} {a b : Value} {x y : Double}
    (ha : a.double? = some x) (hb : b.double? = some y) :
    equalValues symbol a b = compareNumbers symbol (· == ·) Double.eq a b := by
  cases a <;> cases b <;> cases ha <;> cases hb <;> rfl

/-- Operands that can be equal are so or not. -/
theorem equality_sound {symbol : String} {left right : Ty} (h : left.Comparable right)
    {a b : Value} (ha : a.Fits left) (hb : b.Fits right) :
    ∃ c, equalValues symbol ((Widening.ofTypes left right).convertLeft a)
      ((Widening.ofTypes left right).convertRight b) = .ok c := by
  rcases h with ⟨hleft, hright⟩ | ⟨rfl, rfl⟩ | ⟨rfl, rfl⟩
  · obtain ⟨x, hx⟩ := Value.double?_of_numeric hleft ha
    obtain ⟨y, hy⟩ := Value.double?_of_numeric hright hb
    rw [equalValues_of_numbers ((Widening.double?_convertLeft _ a).trans hx)
      ((Widening.double?_convertRight _ b).trans hy)]
    exact order_sound hleft hright ha hb _
  · obtain ⟨p, rfl⟩ := Value.fits_bool ha
    obtain ⟨q, rfl⟩ := Value.fits_bool hb
    exact ⟨_, rfl⟩
  · obtain ⟨s, rfl⟩ := Value.fits_string ha
    obtain ⟨t, rfl⟩ := Value.fits_string hb
    exact ⟨_, rfl⟩

/-- The result of an operator fits its type, and nothing but a division by zero
can go wrong. -/
theorem BinaryOp.eval_sound {op : BinaryOp} {left right ty : Ty} {w : Widening}
    (hrule : Rule op left right ty w) {a b : Value} (ha : a.Fits left) (hb : b.Fits right) :
    (∃ v, op.eval left right a b = .ok v ∧ v.Fits ty) ∨
      op.eval left right a b = .error .divisionByZero := by
  cases hrule with
  | arithmetic kind hop hleft hright =>
    have hops := Operands.of_fits hleft hright ha hb
    subst hop
    cases kind <;> exact Arithmetic.eval_sound _ _ hops
  | mod =>
    obtain ⟨i, rfl⟩ := Value.fits_int ha
    obtain ⟨j, rfl⟩ := Value.fits_int hb
    by_cases hj : j = 0
    · exact .inr (by simp [eval, hj])
    · exact .inl ⟨.int (i % j), by simp [eval, hj], .inl rfl⟩
  | concat =>
    obtain ⟨s, rfl⟩ := Value.fits_string ha
    obtain ⟨t, rfl⟩ := Value.fits_string hb
    exact .inl ⟨_, rfl, .inl rfl⟩
  | order hop hleft hright =>
    rcases hop with rfl | rfl
    all_goals
      obtain ⟨c, hc⟩ := order_sound hleft hright ha hb _
      exact .inl ⟨.bool c, by rw [eval, hc]; rfl, .inl rfl⟩
  | equality hop h =>
    rcases hop with rfl | rfl
    all_goals
      obtain ⟨c, hc⟩ := equality_sound h ha hb
      exact .inl ⟨_, by rw [eval, hc]; rfl, .inl rfl⟩
  | connective hop =>
    obtain ⟨p, rfl⟩ := Value.fits_bool ha
    obtain ⟨q, rfl⟩ := Value.fits_bool hb
    rcases hop with rfl | rfl <;> exact .inl ⟨_, rfl, .inl rfl⟩

-- ---------------------------------------------------------------------------
-- Effects
-- ---------------------------------------------------------------------------

/-- What an assignment stores is its value, converted if the check says so. -/
theorem Value.stored_eq {target : Ident} {found : Option Ty} {value ty : Ty} {wd : Widening}
    (hjudge : judgeAssignment target found value = .ok (ty, wd)) (v : Value) :
    v.stored found value = wd.convertRight v := by
  obtain ⟨rfl, -, ⟨rfl, rfl⟩ | ⟨rfl, rfl, rfl⟩⟩ := judgeAssignment_eq_ok.mp hjudge
  · refine if_neg ?_
    rintro ⟨hf, rfl⟩
    cases hf
  · rfl

/-- What an assignment stores is fit for its target. -/
theorem Value.stored_fits {target : Ident} {found : Option Ty} {value ty : Ty} {wd : Widening}
    (hjudge : judgeAssignment target found value = .ok (ty, wd)) {v : Value} (hv : v.Fits value) :
    (v.stored found value).Fits ty := by
  rw [stored_eq hjudge]
  obtain ⟨-, -, ⟨rfl, rfl⟩ | ⟨rfl, rfl, rfl⟩⟩ := judgeAssignment_eq_ok.mp hjudge
  · exact hv
  · obtain ⟨i, rfl⟩ := fits_int hv
    exact .inl rfl

/-- The value of either branch fits the type of a choice. -/
theorem Value.branch_fits {loc : Location} {cond onTrue onFalse ty : Ty}
    (hjudge : judgeBranches loc cond onTrue onFalse = .ok ty) {v : Value}
    (hv : v.Fits onTrue ∨ v.Fits onFalse) : v.Fits ty := by
  obtain ⟨-, -, -, ⟨rfl, rfl⟩ | ⟨-, htrue, hfalse, rfl⟩⟩ := judgeBranches_eq_ok.mp hjudge
  · exact hv.elim id id
  · exact hv.elim (·.float htrue) (·.float hfalse)

/-- An effect ends in a typed world, with a result of the given kind or for a
reason that no check could see. -/
def Sound (Γ : Symbols) {α : Type} (x : Effect α) (Q : α → Prop) (w : World) : Prop :=
  wp x (fun a w' => Q a ∧ w'.Typed Γ) (fun f w' => f.isDynamic ∧ w'.Typed Γ) w

theorem Sound.bind {Γ : Symbols} {α β : Type} {Q : α → Prop} {R : β → Prop} {x : Effect α}
    {f : α → Effect β} {w : World} (hx : Sound Γ x Q w)
    (hf : ∀ a w', Q a → w'.Typed Γ → Sound Γ (f a) R w') : Sound Γ (x >>= f) R w :=
  wp_bind.mpr (hx.mono (fun a w' h => hf a w' h.1 h.2) fun _ _ h => h)

/-- **Values fit their types**: evaluating an expression that checks, in a typed
world. -/
theorem Expr.eval_sound {Γ : Symbols} {e : Expr Literal} (he : e.ty Γ ≠ .error) {w : World}
    (hw : w.Typed Γ) : Sound Γ (e.eval Γ) (·.Fits (e.ty Γ)) w := by
  induction e generalizing w with
  | literal loc value => exact ⟨Value.fits_self _, hw⟩
  | name loc x =>
    rw [Expr.eval, Sound, wp_bind, wp_get]
    cases hv : w.store.find? x with
    | none => exact ⟨rfl, hw⟩
    | some v =>
      obtain ⟨ty, hty, hfits⟩ := hw x v hv
      have hsame : ty = (Expr.name loc x).ty Γ := by
        rw [find?_of_ty he] at hty
        exact (Option.some.inj hty).symm
      exact ⟨hsame ▸ hfits, hw⟩
  | group loc inner ih => exact ih he hw
  | unary loc op operand ih =>
    refine Sound.bind (ih (operand_of_unary he) hw) fun v w' hv hw' => ?_
    obtain ⟨u, hu, hfits⟩ := UnaryOp.eval_sound (UnaryOp.judge_eq_ok.mp (judge_of_unary he)) hv
    rw [hu]
    exact ⟨hfits, hw'⟩
  | binary loc op left right ihl ihr =>
    obtain ⟨wd, hjudge⟩ := judge_of_binary he
    obtain ⟨hleft, hright, hcheck⟩ := BinaryOp.judge_eq_ok.mp hjudge
    refine Sound.bind (ihl hleft hw) fun a w₁ ha hw₁ => ?_
    refine Sound.bind (ihr hright hw₁) fun b w₂ hb hw₂ => ?_
    have hrule := BinaryOp.rule_of_check hleft hcheck
    rcases BinaryOp.eval_sound hrule ha hb with ⟨v, hv, hfits⟩ | hzero
    · rw [hv]
      exact ⟨hfits, hw₂⟩
    · rw [hzero]
      exact ⟨rfl, hw₂⟩
  | assign loc target value ih =>
    obtain ⟨wd, hjudge⟩ := judge_of_assign he
    obtain ⟨hfound, hvalue, hways⟩ := judgeAssignment_eq_ok.mp hjudge
    refine Sound.bind (ih hvalue hw) fun v w' hv hw' => ?_
    have hstored := Value.stored_fits hjudge hv
    exact ⟨hstored, hw'.set hfound hstored⟩
  | ternary loc cond onTrue onFalse ihc iht ihf =>
    have hjudge := judge_of_ternary he
    obtain ⟨hcond, htrue, hfalse, -⟩ := judgeBranches_eq_ok.mp hjudge
    refine Sound.bind (ihc (by rw [hcond]; decide) hw) fun v w' hv hw' => ?_
    rw [hcond] at hv
    obtain ⟨b, rfl⟩ := Value.fits_bool hv
    cases b with
    | true =>
      exact (iht htrue hw').mono
        (fun v w'' h => ⟨Value.branch_fits hjudge (.inl h.1), h.2⟩) fun _ _ h => h
    | false =>
      exact (ihf hfalse hw').mono
        (fun v w'' h => ⟨Value.branch_fits hjudge (.inr h.1), h.2⟩) fun _ _ h => h

-- ---------------------------------------------------------------------------
-- Statements
-- ---------------------------------------------------------------------------

section

variable {Γ : Symbols} {w : World}

theorem Expr.test_sound {cond : Expr Literal} (hcond : cond.ty Γ = .bool) (hw : w.Typed Γ) :
    Sound Γ (cond.test Γ) (fun _ => True) w := by
  refine Sound.bind (eval_sound (by rw [hcond]; decide) hw) fun v w' hv hw' => ?_
  rw [hcond] at hv
  obtain ⟨b, rfl⟩ := Value.fits_bool hv
  exact ⟨trivial, hw'⟩

theorem evalAll_sound {exprs : List (Expr Literal)} (h : ∀ e ∈ exprs, e.ty Γ ≠ .error)
    (hw : w.Typed Γ) : Sound Γ (evalAll Γ exprs) (fun _ => True) w := by
  induction exprs generalizing w with
  | nil => exact ⟨trivial, hw⟩
  | cons e rest ih =>
    refine Sound.bind (Expr.eval_sound (h e List.mem_cons_self) hw) fun v w₁ _ hw₁ => ?_
    refine Sound.bind (ih (fun e he => h e (List.mem_cons_of_mem _ he)) hw₁) fun vs w₂ _ hw₂ => ?_
    exact ⟨trivial, hw₂⟩

theorem writeAll_sound {exprs : List (Expr Literal)} (h : ∀ e ∈ exprs, e.ty Γ ≠ .error)
    (hw : w.Typed Γ) : Sound Γ (writeAll Γ exprs) (fun _ => True) w :=
  Sound.bind (evalAll_sound h hw) fun _ _ _ hw' => ⟨trivial, hw'.write _⟩

theorem typed_declareZeros {ty : Ty} {names : List Ident}
    (h : ∀ x ∈ names, Γ.find? x.name = some ty) (hw : w.Typed Γ) :
    (declareZeros ty names w).Typed Γ := by
  induction names generalizing w with
  | nil => exact hw
  | cons x rest ih =>
    refine ih (fun y hy => h y (List.mem_cons_of_mem _ hy)) ?_
    cases hzero : ty.zero? with
    | none => exact hw
    | some zero => exact hw.set (h x List.mem_cons_self) (Value.fits_zero hzero)

theorem Value.ty_ofLine? {tag : Tag} {line : List Char} {v : Value}
    (h : Value.ofLine? tag line = some v) : v.ty = tag.ty := by
  cases tag with
  | int =>
    obtain ⟨i, -, rfl⟩ := Option.map_eq_some_iff.mp h
    rfl
  | float =>
    obtain ⟨x, -, rfl⟩ := Option.map_eq_some_iff.mp h
    rfl
  | bool =>
    rw [ofLine?] at h
    split at h
    · cases h
      rfl
    · split at h
      · cases h
        rfl
      · cases h
  | string =>
    cases h
    rfl

theorem inputLine_sound (hw : w.Typed Γ) : Sound Γ inputLine (fun _ => True) w := by
  rw [inputLine, Sound, wp_bind, wp_get]
  split
  · exact ⟨rfl, hw⟩
  · rw [wp_bind]
    cases htext : ofUtf8? (takeLine w.input).1 with
    | some text => exact ⟨trivial, hw⟩
    | none => exact ⟨rfl, hw⟩

theorem takeValue_sound (tag : Tag) (hw : w.Typed Γ) :
    Sound Γ (takeValue tag) (·.Fits tag.ty) w := by
  refine Sound.bind (inputLine_sound hw) fun line w' _ hw' => ?_
  cases hv : Value.ofLine? tag line with
  | some v => exact ⟨.inl (Value.ty_ofLine? hv), hw'⟩
  | none => exact ⟨rfl, hw'⟩

theorem readValue_sound (prompt : Bool) (tag : Tag) (hw : w.Typed Γ) :
    Sound Γ (readValue prompt tag) (·.Fits tag.ty) w := by
  cases prompt with
  | false => exact takeValue_sound tag hw
  | true => exact takeValue_sound tag (hw.write ("Input " ++ tag.ty.name ++ ":\n"))

theorem Symbols.find?_of_readTag? {x : Ident} {tag : Tag} (h : readTag? Γ x = some tag) :
    Γ.find? x.name = some tag.ty := by
  obtain ⟨ty, hx, hty⟩ := Option.bind_eq_some_iff.mp h
  cases ty <;> cases hty <;> exact hx

theorem readAll_sound (prompt : Bool) (names : List Ident) (hw : w.Typed Γ) :
    Sound Γ (readAll Γ prompt names) (fun _ => True) w := by
  induction names generalizing w with
  | nil => exact ⟨trivial, hw⟩
  | cons x rest ih =>
    rw [readAll]
    cases htag : readTag? Γ x with
    | none => exact ih hw
    | some tag =>
      refine Sound.bind (readValue_sound prompt tag hw) fun v w' hv hw' => ?_
      exact ih (hw'.set (Symbols.find?_of_readTag? htag) hv)

/-- The outcome is a typed world, and a fault is one that no check could see. -/
def Finish.Sound (Γ : Symbols) : Finish → Prop
  | .done w => w.Typed Γ
  | .fault f w => f.isDynamic ∧ w.Typed Γ

theorem Finish.sound_of {α : Type} {x : Effect α} {Q : α → Prop} (h : Cairn.Sound Γ x Q w) :
    (Finish.of (x w)).Sound Γ := by
  rw [Cairn.Sound, wp] at h
  cases hx : x w with
  | ok a w' =>
    rw [hx] at h
    exact h.2
  | error f w' =>
    rw [hx] at h
    exact h

theorem Expr.test_ok {cond : Expr Literal} (hcond : cond.ty Γ = .bool) (hw : w.Typed Γ) {b : Bool}
    {w' : World} (h : cond.test Γ w = .ok b w') : w'.Typed Γ :=
  (wp.of_ok (test_sound hcond hw) h).2

theorem Expr.test_error {cond : Expr Literal} (hcond : cond.ty Γ = .bool) (hw : w.Typed Γ)
    {f : Fault} {w' : World} (h : cond.test Γ w = .error f w') : f.isDynamic ∧ w'.Typed Γ :=
  wp.of_error (test_sound hcond hw) h

/-- **Running keeps worlds typed**, and a program that checks faults only for
reasons that no check could see. -/
theorem Stmt.Runs.sound {prompt : Bool} {s : Stmt Literal} {o : Finish}
    (h : Runs Γ prompt s w o) (hs : s.WellTyped Γ) (hw : w.Typed Γ) : o.Sound Γ := by
  induction h with
  | empty => exact hw
  | declaration => exact typed_declareZeros hs.2 hw
  | expression => exact Finish.sound_of (Expr.eval_sound hs hw)
  | read => exact Finish.sound_of (readAll_sound prompt _ hw)
  | write => exact Finish.sound_of (writeAll_sound hs hw)
  | blockNil => exact hw
  | blockCons _ _ ihs ihrest => exact ihrest hs.2 (ihs hs.1 hw)
  | blockFault _ ih => exact ih hs.1 hw
  | ifThenTest htest => exact Expr.test_error hs.1 hw htest
  | ifThenTrue htest _ ih => exact ih hs.2 (Expr.test_ok hs.1 hw htest)
  | ifThenFalse htest => exact Expr.test_ok hs.1 hw htest
  | ifElseTest htest => exact Expr.test_error hs.1 hw htest
  | ifElseTrue htest _ ih => exact ih hs.2.1 (Expr.test_ok hs.1 hw htest)
  | ifElseFalse htest _ ih => exact ih hs.2.2 (Expr.test_ok hs.1 hw htest)
  | whileTest htest => exact Expr.test_error hs.1 hw htest
  | whileFalse htest => exact Expr.test_ok hs.1 hw htest
  | whileBody htest _ ih => exact ih hs.2 (Expr.test_ok hs.1 hw htest)
  | whileTrue htest _ _ ihbody ihagain =>
    exact ihagain hs (ihbody hs.2 (Expr.test_ok hs.1 hw htest))
  | doBody _ ih => exact ih hs.2 hw
  | doTest _ htest ih => exact Expr.test_error hs.1 (ih hs.2 hw) htest
  | doFalse _ htest ih => exact Expr.test_ok hs.1 (ih hs.2 hw) htest
  | doTrue _ htest _ ihbody ihagain => exact ihagain hs (Expr.test_ok hs.1 (ihbody hs.2 hw) htest)

end

end Cairn
