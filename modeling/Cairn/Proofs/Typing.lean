import Cairn.Proofs.Statement

/-!
# Cairn — programs without faults

In a program without faults no name is declared twice, and a table that holds
all its declarations gives every expression the type and the code that the
table at its place gave it. Such a program can be looked at under one table:
`Stmt.WellTyped` says that it checks there, and `Stmt.code` is its code.

## Main statements

* `Expr.ty_ne_error`  — an expression without faults has a type.
* `Expr.ty_code_within` — a larger table changes neither its type nor its code.
* `Program.Checked.wellTyped_code` — a program without faults checks under its
  final table, and its code is the one for that table.
-/

namespace Cairn

-- ---------------------------------------------------------------------------
-- Tables
-- ---------------------------------------------------------------------------

namespace Symbols

/-- All names of the one table have the same type in the other. -/
def Within (Γ Δ : Symbols) : Prop :=
  ∀ x ty, Γ.find? x = some ty → Δ.find? x = some ty

/-- No name is marked as an error. -/
def Real (Γ : Symbols) : Prop :=
  ∀ x ty, Γ.find? x = some ty → ty ≠ .error

theorem Within.trans {Γ Δ Θ : Symbols} (h₁ : Γ.Within Δ) (h₂ : Δ.Within Θ) : Γ.Within Θ :=
  fun x ty hx => h₂ x ty (h₁ x ty hx)

theorem Within.find? {Γ Δ : Symbols} (h : Γ.Within Δ) {x : String} {ty : Ty}
    (hx : Γ.find? x = some ty) : Bindings.find? Δ x = Γ.find? x := by
  rw [hx, h x ty hx]

theorem with_of_new {Γ : Symbols} {x : String} (hx : Γ.find? x = none) (ty : Ty) :
    Γ.with x ty = Γ.insert x ty := by
  simp [Symbols.with, declare, hx]

theorem with_of_known {Γ : Symbols} {x : String} {old : Ty} (hx : Γ.find? x = some old)
    (ty : Ty) : Γ.with x ty = Γ := by
  simp [Symbols.with, declare, hx]

theorem within_with (Γ : Symbols) (x : String) (ty : Ty) : Γ.Within (Γ.with x ty) := by
  intro y old hy
  cases hx : Γ.find? x with
  | some known => rwa [with_of_known hx]
  | none =>
    have hne : x ≠ y := by
      rintro rfl
      rw [hx] at hy
      cases hy
    rw [with_of_new hx, Bindings.find?_insert, if_neg hne]
    exact hy

theorem Real.with {Γ : Symbols} (h : Γ.Real) (x : String) {ty : Ty} (hty : ty ≠ .error) :
    (Γ.with x ty).Real := by
  intro y found hy
  cases hx : Γ.find? x with
  | some known =>
    rw [with_of_known hx] at hy
    exact h y found hy
  | none =>
    rw [with_of_new hx, Bindings.find?_insert] at hy
    split at hy
    · cases hy
      exact hty
    · exact h y found hy

end Symbols

-- ---------------------------------------------------------------------------
-- Verdicts in favour
-- ---------------------------------------------------------------------------

/-- A type that is not the mark of an error comes from a verdict in favour. -/
theorem Verdict.eq_ok_of_ty {v : Verdict Ty} (h : v.ty ≠ .error) : v = .ok v.ty := by
  cases v with
  | ok ty => rfl
  | error ds => exact absurd rfl h

theorem Verdict.eq_ok_of_map_ty {v : Verdict (Ty × Widening)}
    (h : Verdict.ty (v.map Prod.fst) ≠ .error) :
    ∃ w, v = .ok (Verdict.ty (v.map Prod.fst), w) := by
  cases v with
  | ok r => exact ⟨r.2, rfl⟩
  | error ds => exact absurd rfl h

theorem UnaryOp.judge_eq_ok {op : UnaryOp} {loc : Location} {operand ty : Ty} :
    op.judge loc operand = .ok ty ↔ op.check operand = .ok ty := by
  cases op <;> cases operand <;> simp [judge, check, Ty.isError]

theorem BinaryOp.judge_eq_ok {op : BinaryOp} {loc : Location} {left right : Ty}
    {result : Ty × Widening} :
    op.judge loc left right = .ok result ↔
      left ≠ .error ∧ right ≠ .error ∧ op.check left right = .ok result := by
  cases hcheck : op.check left right <;> cases left <;> cases right <;>
    simp [judge, hcheck, Ty.isError]

theorem judgeAssignment_eq_ok {target : Ident} {found : Option Ty} {value ty : Ty}
    {w : Widening} :
    judgeAssignment target found value = .ok (ty, w) ↔
      found = some ty ∧ value ≠ .error ∧
        (ty = value ∧ w = .none ∨ ty = .float ∧ value = .int ∧ w = .right) := by
  cases found with
  | none => simp [judgeAssignment]
  | some declared =>
    cases declared <;> cases value <;> simp [judgeAssignment, Ty.isError] <;> grind

theorem judgeBranches_eq_ok {loc : Location} {cond onTrue onFalse ty : Ty} :
    judgeBranches loc cond onTrue onFalse = .ok ty ↔
      cond = .bool ∧ onTrue ≠ .error ∧ onFalse ≠ .error ∧
        (onTrue = onFalse ∧ ty = onTrue ∨
          onTrue ≠ onFalse ∧ onTrue.isNumeric ∧ onFalse.isNumeric ∧ ty = .float) := by
  cases cond <;> cases onTrue <;> cases onFalse <;>
    simp [judgeBranches, Ty.isError, Ty.isNumeric] <;> grind

/-- Without a fault of its own an operator accepts operands that have types. -/
theorem UnaryOp.judge_ok {op : UnaryOp} {loc : Location} {operand : Ty} (hty : operand ≠ .error)
    (h : (op.judge loc operand).faults = []) :
    ∃ ty, op.judge loc operand = .ok ty ∧ ty ≠ .error := by
  cases op <;> cases operand <;> simp_all [judge, check, Ty.isError]

theorem BinaryOp.checkEach_eq_ok {op : BinaryOp} {accepts : Ty → Bool} {left right : Ty}
    {result r : Ty × Widening} :
    op.checkEach accepts left right result = .ok r ↔
      accepts left ∧ accepts right ∧ result = r := by
  cases hl : accepts left <;> cases hr : accepts right <;>
    simp [checkEach, firstOutside, hl, hr]

theorem BinaryOp.check_ne_error {op : BinaryOp} {left right : Ty} {result : Ty × Widening}
    (h : op.check left right = .ok result) : result.1 ≠ .error := by
  cases op <;> cases left <;> cases right <;> cases h <;> decide

theorem BinaryOp.judge_ok {op : BinaryOp} {loc : Location} {left right : Ty}
    (hleft : left ≠ .error) (hright : right ≠ .error)
    (h : (op.judge loc left right).faults = []) :
    ∃ result, op.judge loc left right = .ok result ∧ result.1 ≠ .error := by
  cases hcheck : op.check left right with
  | ok result =>
    exact ⟨result, judge_eq_ok.mpr ⟨hleft, hright, hcheck⟩, check_ne_error hcheck⟩
  | error fault =>
    cases left <;> cases right <;> simp_all [judge, Ty.isError]

theorem judgeAssignment_ok {target : Ident} {found : Option Ty} {value : Ty}
    (hfound : found ≠ some .error) (hvalue : value ≠ .error)
    (h : (judgeAssignment target found value).faults = []) :
    ∃ result, judgeAssignment target found value = .ok result ∧ result.1 ≠ .error := by
  cases found with
  | none => simp [judgeAssignment] at h
  | some declared =>
    cases declared <;> cases value <;> simp_all [judgeAssignment, Ty.isError]

theorem conditionFaults_eq_nil {loc : Location} {ty : Ty} (hty : ty ≠ .error) :
    conditionFaults loc ty = [] ↔ ty = .bool := by
  cases ty <;> simp_all [conditionFaults]

theorem judgeBranches_ok {loc : Location} {onTrue onFalse : Ty}
    (htrue : onTrue ≠ .error) (hfalse : onFalse ≠ .error)
    (h : (judgeBranches loc .bool onTrue onFalse).faults = []) :
    ∃ ty, judgeBranches loc .bool onTrue onFalse = .ok ty ∧ ty ≠ .error := by
  cases onTrue <;> cases onFalse <;> simp_all [judgeBranches, Ty.isError, Ty.isNumeric]

-- ---------------------------------------------------------------------------
-- Expressions
-- ---------------------------------------------------------------------------

namespace Expr

variable {Γ Δ : Symbols}

/-- An expression without faults has a type. -/
theorem ty_ne_error (hreal : Γ.Real) {e : Expr Literal} (h : e.faults Γ = []) :
    e.ty Γ ≠ .error := by
  induction e with
  | literal loc value =>
    cases value <;> simp [Expr.ty, Literal.toValue, Value.ty, Value.tag, Tag.ty]
  | name loc x =>
    cases hx : Γ.find? x with
    | none => simp [faults, judgeName, hx] at h
    | some ty => simpa [Expr.ty, judgeName, hx] using hreal x ty hx
  | group loc inner ih => exact ih h
  | unary loc op operand ih =>
    simp only [faults, List.append_eq_nil_iff] at h
    obtain ⟨ty, hjudge, hty⟩ := UnaryOp.judge_ok (ih h.1) h.2
    rwa [Expr.ty, hjudge]
  | binary loc op left right ihl ihr =>
    simp only [faults, List.append_eq_nil_iff] at h
    obtain ⟨result, hjudge, hty⟩ := BinaryOp.judge_ok (ihl h.1.1) (ihr h.1.2) h.2
    rwa [Expr.ty, hjudge]
  | assign loc target value ih =>
    simp only [faults, List.append_eq_nil_iff] at h
    have hfound : Γ.find? target.name ≠ some .error := fun hx => hreal _ _ hx rfl
    obtain ⟨result, hjudge, hty⟩ := judgeAssignment_ok hfound (ih h.1) h.2
    rwa [Expr.ty, hjudge]
  | ternary loc cond onTrue onFalse ihc iht ihf =>
    simp only [faults, List.append_eq_nil_iff] at h
    obtain ⟨⟨⟨⟨hc, hcond⟩, ht⟩, hf⟩, hbranches⟩ := h
    rw [conditionFaults_eq_nil (ihc hc)] at hcond
    rw [hcond] at hbranches
    obtain ⟨ty, hjudge, hty⟩ := judgeBranches_ok (iht ht) (ihf hf) hbranches
    rwa [Expr.ty, hcond, hjudge]

-- What the parts of an expression with a type are.

theorem find?_of_ty {loc : Location} {x : String} (h : (Expr.name loc x).ty Γ ≠ .error) :
    Γ.find? x = some ((Expr.name loc x).ty Γ) := by
  cases hx : Γ.find? x with
  | none => simp [Expr.ty, judgeName, hx] at h
  | some ty => simp [Expr.ty, judgeName, hx]

theorem judge_of_unary {loc : Location} {op : UnaryOp} {e : Expr Literal}
    (h : (Expr.unary loc op e).ty Γ ≠ .error) :
    op.judge loc (e.ty Γ) = .ok ((Expr.unary loc op e).ty Γ) :=
  Verdict.eq_ok_of_ty h

theorem judge_of_binary {loc : Location} {op : BinaryOp} {l r : Expr Literal}
    (h : (Expr.binary loc op l r).ty Γ ≠ .error) :
    ∃ w, op.judge loc (l.ty Γ) (r.ty Γ) = .ok ((Expr.binary loc op l r).ty Γ, w) :=
  Verdict.eq_ok_of_map_ty h

theorem judge_of_assign {loc : Location} {target : Ident} {e : Expr Literal}
    (h : (Expr.assign loc target e).ty Γ ≠ .error) :
    ∃ w, judgeAssignment target (Γ.find? target.name) (e.ty Γ) =
      .ok ((Expr.assign loc target e).ty Γ, w) :=
  Verdict.eq_ok_of_map_ty h

theorem judge_of_ternary {loc : Location} {c t f : Expr Literal}
    (h : (Expr.ternary loc c t f).ty Γ ≠ .error) :
    judgeBranches loc (c.ty Γ) (t.ty Γ) (f.ty Γ) = .ok ((Expr.ternary loc c t f).ty Γ) :=
  Verdict.eq_ok_of_ty h

theorem operand_of_unary {loc : Location} {op : UnaryOp} {e : Expr Literal}
    (h : (Expr.unary loc op e).ty Γ ≠ .error) : e.ty Γ ≠ .error := by
  intro he
  have hcheck := UnaryOp.judge_eq_ok.mp (judge_of_unary h)
  rw [he] at hcheck
  cases op <;> cases hcheck

/-- A larger table gives an expression the same type and code. -/
theorem ty_code_within (hsub : Γ.Within Δ) {e : Expr Literal} (h : e.ty Γ ≠ .error) :
    e.ty Δ = e.ty Γ ∧ ∀ n, e.code Δ n = e.code Γ n := by
  induction e with
  | literal loc value => exact ⟨rfl, fun n => rfl⟩
  | name loc x =>
    have hx : Δ.find? x = Γ.find? x := hsub.find? (find?_of_ty h)
    simp only [Expr.ty, code, hx, implies_true, and_self]
  | group loc inner ih => exact ih h
  | unary loc op operand ih =>
    obtain ⟨hty, hcode⟩ := ih (operand_of_unary h)
    simp only [Expr.ty, code, hty, hcode, implies_true, and_self]
  | binary loc op left right ihl ihr =>
    obtain ⟨w, hjudge⟩ := judge_of_binary h
    obtain ⟨hleft, hright, -⟩ := BinaryOp.judge_eq_ok.mp hjudge
    obtain ⟨htyl, hcodel⟩ := ihl hleft
    obtain ⟨htyr, hcoder⟩ := ihr hright
    simp only [Expr.ty, code, htyl, htyr, hcodel, hcoder, implies_true, and_self]
  | assign loc target value ih =>
    obtain ⟨w, hjudge⟩ := judge_of_assign h
    obtain ⟨hfound, hvalue, -⟩ := judgeAssignment_eq_ok.mp hjudge
    obtain ⟨hty, hcode⟩ := ih hvalue
    have hx : Δ.find? target.name = Γ.find? target.name := hsub.find? hfound
    simp only [Expr.ty, code, hty, hcode, hx, implies_true, and_self]
  | ternary loc cond onTrue onFalse ihc iht ihf =>
    obtain ⟨hcond, htrue, hfalse, -⟩ := judgeBranches_eq_ok.mp (judge_of_ternary h)
    obtain ⟨htyc, hcodec⟩ := ihc (by rw [hcond]; decide)
    obtain ⟨htyt, hcodet⟩ := iht htrue
    obtain ⟨htyf, hcodef⟩ := ihf hfalse
    simp only [Expr.ty, code, htyc, htyt, htyf, hcodec, hcodet, hcodef, implies_true, and_self]

end Expr

-- ---------------------------------------------------------------------------
-- Statements under one table
-- ---------------------------------------------------------------------------

namespace Stmt

mutual

/-- A property of every statement inside a statement, blocks apart. -/
def All {L : Type} (P : Stmt L → Prop) : Stmt L → Prop
  | .block _ body => AllOf P body
  | .ifThen loc cond onTrue => P (.ifThen loc cond onTrue) ∧ onTrue.All P
  | .ifElse loc cond onTrue onFalse =>
    P (.ifElse loc cond onTrue onFalse) ∧ onTrue.All P ∧ onFalse.All P
  | .whileDo loc cond body => P (.whileDo loc cond body) ∧ body.All P
  | .doWhile loc body cond => P (.doWhile loc body cond) ∧ body.All P
  | s => P s

/-- A property of every statement inside statements, blocks apart. -/
def AllOf {L : Type} (P : Stmt L → Prop) : List (Stmt L) → Prop
  | [] => True
  | s :: rest => s.All P ∧ AllOf P rest

end

/-- Every declaration is one of a type of values. -/
def DeclaresReal : Stmt Literal → Prop :=
  All fun
    | .declaration _ ty _ => ty ≠ .error
    | _ => True

/-- What is asked of a statement itself for it to check under a table. -/
def Fits (Γ : Symbols) : Stmt Literal → Prop
  | .declaration _ ty names => ty ≠ .error ∧ ∀ x ∈ names, Γ.find? x.name = some ty
  | .expression _ e => e.ty Γ ≠ .error
  | .read _ names => ∀ x ∈ names, readTag? Γ x ≠ none
  | .write _ exprs => ∀ e ∈ exprs, e.ty Γ ≠ .error
  | .ifThen _ cond _ => cond.ty Γ = .bool
  | .ifElse _ cond _ _ => cond.ty Γ = .bool
  | .whileDo _ cond _ => cond.ty Γ = .bool
  | .doWhile _ _ cond => cond.ty Γ = .bool
  | _ => True

/-- The statement checks under the table, with all that is in it. -/
def WellTyped (Γ : Symbols) : Stmt Literal → Prop :=
  All (Fits Γ)

mutual

/-- The code of a statement under a table, its labels numbered from `n` on. -/
def code (Γ : Symbols) : Nat → Stmt Literal → Code
  | _, .empty _ => []
  | _, .declaration _ ty names => names.flatMap (zeroCode ty)
  | n, .expression _ e => e.code Γ n ++ [.pop]
  | _, .read _ names => names.flatMap (readCode Γ)
  | n, .write _ exprs => exprsCode Γ n exprs ++ [.print (.ofNat exprs.length)]
  | n, .block _ body => codeAll Γ n body
  | n, .ifThen _ cond onTrue =>
    cond.code Γ (n + 1) ++ [.fjmp (.ofNat n)] ++
      onTrue.code Γ (n + 1 + cond.labelCount) ++ [.label (.ofNat n)]
  | n, .ifElse _ cond onTrue onFalse =>
    cond.code Γ (n + 2) ++ [.fjmp (.ofNat n)] ++
      onTrue.code Γ (n + 2 + cond.labelCount) ++
      [.jmp (.ofNat (n + 1)), .label (.ofNat n)] ++
      onFalse.code Γ (n + 2 + cond.labelCount + onTrue.labelCount) ++
      [.label (.ofNat (n + 1))]
  | n, .whileDo _ cond body =>
    [.label (.ofNat n)] ++ cond.code Γ (n + 2) ++ [.fjmp (.ofNat (n + 1))] ++
      body.code Γ (n + 2 + cond.labelCount) ++
      [.jmp (.ofNat n), .label (.ofNat (n + 1))]
  | n, .doWhile _ body cond =>
    [.label (.ofNat n)] ++ body.code Γ (n + 2) ++
      cond.code Γ (n + 2 + body.labelCount) ++
      [.fjmp (.ofNat (n + 1)), .jmp (.ofNat n), .label (.ofNat (n + 1))]

/-- The code of statements under a table. -/
def codeAll (Γ : Symbols) : Nat → List (Stmt Literal) → Code
  | _, [] => []
  | n, s :: rest => s.code Γ n ++ codeAll Γ (n + s.labelCount) rest

end

end Stmt

theorem within_declareAll (ty : Ty) (Γ : Symbols) (names : List Ident) :
    Γ.Within (declareAll ty Γ names) := by
  induction names generalizing Γ with
  | nil => exact fun _ _ h => h
  | cons x rest ih => exact (Γ.within_with x.name ty).trans (ih _)

theorem real_declareAll {ty : Ty} (hty : ty ≠ .error) {Γ : Symbols} (hreal : Γ.Real)
    (names : List Ident) : (declareAll ty Γ names).Real := by
  induction names generalizing Γ with
  | nil => exact hreal
  | cons x rest ih => exact ih (hreal.with x.name hty)

/-- Declarations without faults bind every name, and set every name to zero. -/
theorem declare_new {ty : Ty} {Γ Δ : Symbols} {names : List Ident}
    (h : declareFaults ty Γ names = []) (hsub : (declareAll ty Γ names).Within Δ) :
    (∀ x ∈ names, Δ.find? x.name = some ty) ∧
      declareCodeFrom ty Γ names = names.flatMap (zeroCode ty) := by
  induction names generalizing Γ with
  | nil => simp [declareCodeFrom]
  | cons x rest ih =>
    cases hx : Γ.find? x.name with
    | some old => simp [declareFaults, hx] at h
    | none =>
      have hrest : declareFaults ty (Γ.with x.name ty) rest = [] := by
        simpa [declareFaults, hx] using h
      obtain ⟨hnames, hcode⟩ := ih hrest hsub
      have hthis : (Γ.with x.name ty).find? x.name = some ty := by
        rw [Symbols.with_of_new hx, Bindings.find?_insert, if_pos rfl]
      refine ⟨?_, by simp [declareCodeFrom, hx, hcode]⟩
      intro y hy
      rcases List.mem_cons.mp hy with rfl | hy
      · exact hsub _ _ (within_declareAll ty _ rest _ _ hthis)
      · exact hnames y hy

namespace Stmt

theorem within_symbolsAfter (s : Stmt Literal) (Γ : Symbols) : Γ.Within (s.symbolsAfter Γ) := by
  induction s using Stmt.induction generalizing Γ with
  | declaration loc ty names => exact within_declareAll ty Γ names
  | blockCons loc s rest ihs ihrest => exact (ihs Γ).trans (ihrest _)
  | ifThen loc cond onTrue ih => exact ih Γ
  | ifElse loc cond onTrue onFalse iht ihf => exact (iht Γ).trans (ihf _)
  | whileDo loc cond body ih => exact ih Γ
  | doWhile loc body cond ih => exact ih Γ
  | _ => exact fun _ _ h => h

theorem real_symbolsAfter {s : Stmt Literal} (hs : s.DeclaresReal) {Γ : Symbols}
    (hreal : Γ.Real) : (s.symbolsAfter Γ).Real := by
  induction s using Stmt.induction generalizing Γ with
  | declaration loc ty names => exact real_declareAll hs hreal names
  | blockCons loc s rest ihs ihrest => exact ihrest hs.2 (ihs hs.1 hreal)
  | ifThen loc cond onTrue ih => exact ih hs.2 hreal
  | ifElse loc cond onTrue onFalse iht ihf => exact ihf hs.2.2 (iht hs.2.1 hreal)
  | whileDo loc cond body ih => exact ih hs.2 hreal
  | doWhile loc body cond ih => exact ih hs.2 hreal
  | _ => exact hreal

end Stmt

/-- A condition without faults is a truth value under every larger table, with
the same code. -/
theorem Expr.condition_within {Γ Δ : Symbols} (hreal : Γ.Real) (hsub : Γ.Within Δ)
    {cond : Expr Literal} (h : cond.conditionFaults Γ = []) :
    cond.ty Δ = .bool ∧ ∀ n, cond.code Δ n = cond.code Γ n := by
  rw [conditionFaults, List.append_eq_nil_iff] at h
  have hty := ty_ne_error hreal h.1
  obtain ⟨htyΔ, hcode⟩ := ty_code_within hsub hty
  exact ⟨htyΔ.trans ((conditionFaults_eq_nil hty).mp h.2), hcode⟩

theorem readTag?_within {Γ Δ : Symbols} (hsub : Γ.Within Δ) {x : Ident}
    (h : readFaults Γ x = []) : readTag? Γ x ≠ none ∧ readTag? Δ x = readTag? Γ x := by
  cases hx : Γ.find? x.name with
  | none => simp [readFaults, readTag?, hx] at h
  | some ty =>
    have htag : readTag? Δ x = readTag? Γ x := by rw [readTag?, readTag?, hsub.find? hx]
    refine ⟨fun hnone => ?_, htag⟩
    simp [readFaults, hnone] at h

theorem exprsCode_within {Γ Δ : Symbols} (hreal : Γ.Real) (hsub : Γ.Within Δ)
    {exprs : List (Expr Literal)} (h : exprs.flatMap (Expr.faults Γ) = []) (n : Nat) :
    (∀ e ∈ exprs, e.ty Δ ≠ .error) ∧ exprsCode Δ n exprs = exprsCode Γ n exprs := by
  induction exprs generalizing n with
  | nil => exact ⟨by simp, rfl⟩
  | cons e rest ih =>
    rw [List.flatMap_cons, List.append_eq_nil_iff] at h
    have hty := Expr.ty_ne_error hreal h.1
    obtain ⟨htyΔ, hcode⟩ := Expr.ty_code_within hsub hty
    obtain ⟨hrest, hcodes⟩ := ih h.2 (n + e.labelCount)
    refine ⟨?_, by rw [exprsCode, exprsCode, hcode, hcodes]⟩
    intro e' he'
    rcases List.mem_cons.mp he' with rfl | he'
    · rwa [htyΔ]
    · exact hrest e' he'

/-- **One table for all**: a statement without faults checks under every table
that holds its declarations, and has the code of that table. -/
theorem Stmt.wellTyped_code (s : Stmt Literal) {Γ Δ : Symbols} (hreal : Γ.Real)
    (hs : s.DeclaresReal) (h : s.faultsFrom Γ = []) (hsub : (s.symbolsAfter Γ).Within Δ) :
    s.WellTyped Δ ∧ ∀ n, s.codeFrom Γ n = s.code Δ n := by
  induction s using Stmt.induction generalizing Γ with
  | empty loc => exact ⟨trivial, fun n => rfl⟩
  | declaration loc ty names =>
    obtain ⟨hnames, hcode⟩ := declare_new h hsub
    exact ⟨⟨hs, hnames⟩, fun n => hcode⟩
  | expression loc e =>
    change Γ.Within Δ at hsub
    have hty := Expr.ty_ne_error hreal h
    obtain ⟨htyΔ, hcode⟩ := Expr.ty_code_within hsub hty
    exact ⟨fun herr => hty (htyΔ.symm.trans herr), fun n => by rw [codeFrom, Stmt.code, hcode]⟩
  | read loc names =>
    change Γ.Within Δ at hsub
    have htags := fun x hx => readTag?_within hsub (List.flatMap_eq_nil_iff.mp h x hx)
    refine ⟨fun x hx => (htags x hx).2 ▸ (htags x hx).1, fun n => ?_⟩
    have hcodes : names.map (readCode Γ) = names.map (readCode Δ) :=
      List.map_congr_left fun x hx => by rw [readCode, readCode, (htags x hx).2]
    rw [codeFrom, Stmt.code, List.flatMap_def, List.flatMap_def, hcodes]
  | write loc exprs =>
    refine ⟨(exprsCode_within hreal hsub h 0).1, fun n => ?_⟩
    rw [codeFrom, Stmt.code, (exprsCode_within hreal hsub h n).2]
  | blockNil loc => exact ⟨trivial, fun n => rfl⟩
  | blockCons loc s rest ihs ihrest =>
    have hparts := List.append_eq_nil_iff.mp h
    obtain ⟨htys, hcodes⟩ :=
      ihs hreal hs.1 hparts.1 ((within_symbolsAfter (.block loc rest) _).trans hsub)
    obtain ⟨htyr, hcoder⟩ := ihrest (real_symbolsAfter hs.1 hreal) hs.2 hparts.2 hsub
    refine ⟨⟨htys, htyr⟩, fun n => ?_⟩
    have hrest : codeFromAll (s.symbolsAfter Γ) (n + s.labelCount) rest =
        codeAll Δ (n + s.labelCount) rest := hcoder (n + s.labelCount)
    rw [codeFrom, Stmt.code, codeFromAll, codeAll, hcodes, hrest]
  | ifThen loc cond onTrue ih =>
    rw [faultsFrom, List.append_eq_nil_iff] at h
    have hΓ := (within_symbolsAfter onTrue Γ).trans hsub
    obtain ⟨hbool, hcond⟩ := Expr.condition_within hreal hΓ h.1
    obtain ⟨hty, hcode⟩ := ih hreal hs.2 h.2 hsub
    exact ⟨⟨hbool, hty⟩, fun n => by rw [codeFrom, Stmt.code, hcond, hcode]⟩
  | ifElse loc cond onTrue onFalse iht ihf =>
    rw [faultsFrom, List.append_eq_nil_iff, List.append_eq_nil_iff] at h
    have hfalse := (within_symbolsAfter onFalse (onTrue.symbolsAfter Γ)).trans hsub
    have hΓ := (within_symbolsAfter onTrue Γ).trans hfalse
    obtain ⟨hbool, hcond⟩ := Expr.condition_within hreal hΓ h.1.1
    obtain ⟨htyt, hcodet⟩ := iht hreal hs.2.1 h.1.2 hfalse
    obtain ⟨htyf, hcodef⟩ := ihf (real_symbolsAfter hs.2.1 hreal) hs.2.2 h.2 hsub
    exact ⟨⟨hbool, htyt, htyf⟩, fun n => by rw [codeFrom, Stmt.code, hcond, hcodet, hcodef]⟩
  | whileDo loc cond body ih =>
    rw [faultsFrom, List.append_eq_nil_iff] at h
    have hΓ := (within_symbolsAfter body Γ).trans hsub
    obtain ⟨hbool, hcond⟩ := Expr.condition_within hreal hΓ h.1
    obtain ⟨hty, hcode⟩ := ih hreal hs.2 h.2 hsub
    exact ⟨⟨hbool, hty⟩, fun n => by rw [codeFrom, Stmt.code, hcond, hcode]⟩
  | doWhile loc body cond ih =>
    rw [faultsFrom, List.append_eq_nil_iff] at h
    obtain ⟨hbool, hcond⟩ := Expr.condition_within (real_symbolsAfter hs.2 hreal) hsub h.2
    obtain ⟨hty, hcode⟩ := ih hreal hs.2 h.1 hsub
    exact ⟨⟨hbool, hty⟩, fun n => by rw [codeFrom, Stmt.code, hcond, hcode]⟩

-- ---------------------------------------------------------------------------
-- Programs
-- ---------------------------------------------------------------------------

theorem Symbols.real_empty : Symbols.Real .empty := by
  intro x ty hx
  cases hx

/-- What is asked of a program: its declarations are of types of values, there
are numbers enough for its labels, and it compiles without diagnostics. -/
structure Program.Checked (program : Program) : Prop where
  declaresReal : program.asBlock.DeclaresReal
  labels : program.asBlock.labelCount < UInt32.size
  clean : program.compile.diagnostics = []

/-- **A program without faults** checks under its final table, and its code is
the one for that table. -/
theorem Program.Checked.wellTyped_code {program : Program} (h : program.Checked) :
    program.asBlock.WellTyped program.symbols ∧
      program.compile.code = program.asBlock.code program.symbols 0 := by
  have hfaults : program.asBlock.faultsFrom .empty = [] := by
    have hclean := h.clean
    rw [compile_eq] at hclean
    exact hclean
  obtain ⟨hty, hcode⟩ := program.asBlock.wellTyped_code Symbols.real_empty h.declaresReal hfaults
    fun _ _ hx => hx
  refine ⟨hty, ?_⟩
  rw [compile_eq]
  exact hcode 0

end Cairn
