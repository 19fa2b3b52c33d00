import Cairn.Compile.Basic

/-!
# Cairn — the code of an expression, by its shape

Compiling works on a state: it appends code, inserts conversions into code that
is already there, hands out labels and collects faults. Here the same result is
described without a state. An expression has, under a table of declared names,
a type, a piece of code, a number of labels and a list of faults, and each of
them is a plain function of the parts of the expression. In particular the
conversion of a left operand stands between the code of the two operands.

## Main statements

* `Expr.compile_adds` — compiling an expression appends its code, labels and
  faults to the state and returns its type; nothing else changes.
-/

namespace Cairn

-- ---------------------------------------------------------------------------
-- What an emitter gains
-- ---------------------------------------------------------------------------

namespace Emitter

/-- The emitter with code, labels and faults added behind what it holds. -/
def extend (s : Emitter) (code : Code) (labels : Nat) (faults : List Diagnostic) : Emitter :=
  { s with
    code := s.code ++ code
    nextLabel := s.nextLabel + UInt32.ofNat labels
    diagnostics := s.diagnostics ++ faults }

theorem extend_extend (s : Emitter) (c d : Code) (j k : Nat) (e f : List Diagnostic) :
    (s.extend c j e).extend d k f = s.extend (c ++ d) (j + k) (e ++ f) := by
  simp [extend, UInt32.ofNat_add, UInt32.add_assoc]

@[simp] theorem extend_nothing (s : Emitter) : s.extend [] 0 [] = s := by
  simp [extend]

@[simp] theorem extend_symbols (s : Emitter) (c : Code) (k : Nat) (f : List Diagnostic) :
    (s.extend c k f).symbols = s.symbols := rfl

/-- The emitter with another table. -/
def withSymbols (s : Emitter) (Γ : Symbols) : Emitter :=
  { s with symbols := Γ }

theorem withSymbols_self (s : Emitter) : s.withSymbols s.symbols = s := rfl

@[simp] theorem symbols_withSymbols (s : Emitter) (Γ : Symbols) :
    (s.withSymbols Γ).symbols = Γ := rfl

@[simp] theorem withSymbols_withSymbols (s : Emitter) (Γ Δ : Symbols) :
    (s.withSymbols Γ).withSymbols Δ = s.withSymbols Δ := rfl

@[simp] theorem extend_withSymbols (s : Emitter) (Γ : Symbols) (c : Code) (k : Nat)
    (f : List Diagnostic) :
    (s.withSymbols Γ).extend c k f = (s.extend c k f).withSymbols Γ := rfl

theorem extend_nextLabel (s : Emitter) (c : Code) (k : Nat) (f : List Diagnostic) {n : Nat}
    (hn : s.nextLabel = UInt32.ofNat n) :
    (s.extend c k f).nextLabel = UInt32.ofNat (n + k) := by
  rw [extend, hn, UInt32.ofNat_add]

/-- One computation on the emitter behind another. -/
@[simp] theorem emitter_bind_apply {α β : Type} (p : StateM Emitter α) (q : α → StateM Emitter β)
    (s : Emitter) : (p >>= q) s = q (p s).1 (p s).2 := rfl

@[simp] theorem emitter_pure_apply {α : Type} (a : α) (s : Emitter) :
    (pure a : StateM Emitter α) s = (a, s) := rfl

@[simp] theorem emitter_map_apply {α β : Type} (f : α → β) (p : StateM Emitter α) (s : Emitter) :
    (f <$> p) s = (f (p s).1, (p s).2) := rfl

@[simp] theorem emitter_get_apply (s : Emitter) : (get : StateM Emitter Emitter) s = (s, s) := rfl

@[simp] theorem emitter_set_apply (t s : Emitter) : (set t : StateM Emitter Unit) s = ((), t) := rfl

@[simp] theorem emitter_modify_apply (f : Emitter → Emitter) (s : Emitter) :
    (modify f : StateM Emitter Unit) s = ((), f s) := rfl

@[simp] theorem emit_apply (i : Instruction) (s : Emitter) :
    emit i s = ((), s.extend [i] 0 []) := by
  simp [emit, extend]

@[simp] theorem report_apply (loc : Location) (f : TypeFault) (s : Emitter) :
    report loc f s = ((), s.extend [] 0 [⟨loc, f⟩]) := by
  simp [report, extend]

@[simp] theorem freshLabel_apply (s : Emitter) :
    freshLabel s = (s.nextLabel, s.extend [] 1 []) := by
  simp [freshLabel, extend]

@[simp] theorem typeOf?_apply (x : String) (s : Emitter) :
    typeOf? x s = (s.symbols.find? x, s) := rfl

@[simp] theorem offset_apply (s : Emitter) : offset s = (s.code.length, s) := rfl

/-- Inserting where older code ends puts the instruction in front of all that
was added since. -/
@[simp] theorem insertAt_extend (s : Emitter) (c : Code) (k : Nat) (f : List Diagnostic)
    (i : Instruction) :
    insertAt s.code.length i (s.extend c k f) = ((), s.extend (i :: c) k f) := by
  simp [insertAt, extend]

@[simp] theorem emitAll_apply (c : Code) (s : Emitter) : emitAll c s = ((), s.extend c 0 []) := by
  induction c generalizing s with
  | nil => simp [emitAll]
  | cons i rest ih =>
    rw [emitAll]
    show emitAll rest (emit i s).2 = _
    rw [emit_apply, ih, extend_extend]
    simp

end Emitter

open Emitter

/-- Behind the table `Γ` and with labels numbered from `n` on, the computation
returns `a`, adds code, labels and faults, and leaves the table `Γ'`. -/
def Adds {α : Type} (p : StateM Emitter α) (Γ : Symbols) (n : Nat) (a : α) (code : Code)
    (labels : Nat) (faults : List Diagnostic) (Γ' : Symbols) : Prop :=
  ∀ s : Emitter, s.symbols = Γ → s.nextLabel = UInt32.ofNat n →
    p s = (a, (s.extend code labels faults).withSymbols Γ')

namespace Adds

variable {α β : Type} {p : StateM Emitter α} {q : α → StateM Emitter β} {Γ Γ₁ Γ₂ : Symbols}
  {n j k : Nat} {a : α} {b : β} {c d : Code} {e f : List Diagnostic}

/-- What two computations add stands one behind the other. -/
theorem bind (hp : Adds p Γ n a c j e Γ₁) (hq : Adds (q a) Γ₁ (n + j) b d k f Γ₂) :
    Adds (p >>= q) Γ n b (c ++ d) (j + k) (e ++ f) Γ₂ := by
  intro s hs hn
  rw [emitter_bind_apply, hp s hs hn,
    hq ((s.extend c j e).withSymbols Γ₁) rfl (extend_nextLabel s c j e hn), extend_withSymbols,
    extend_extend, withSymbols_withSymbols]

theorem cast {c' : Code} {k' : Nat} {f' : List Diagnostic} (h : Adds p Γ n a c k f Γ₁)
    (hc : c = c') (hk : k = k') (hf : f = f') : Adds p Γ n a c' k' f' Γ₁ :=
  hc ▸ hk ▸ hf ▸ h

theorem pure (a : α) : Adds (Pure.pure a) Γ n a [] 0 [] Γ := by
  intro s hs _
  rw [emitter_pure_apply, extend_nothing, ← hs, withSymbols_self]

theorem emit (i : Instruction) : Adds (Emitter.emit i) Γ n () [i] 0 [] Γ := by
  intro s hs _
  rw [emit_apply, ← hs]
  rfl

theorem freshLabel : Adds Emitter.freshLabel Γ n (UInt32.ofNat n) [] 1 [] Γ := by
  intro s hs hn
  rw [freshLabel_apply, hn, ← hs]
  rfl

end Adds

-- ---------------------------------------------------------------------------
-- Verdicts
-- ---------------------------------------------------------------------------

/-- What checking a construct comes to: something that holds of it, or the
faults to report. There are none to report if a part was at fault already. -/
abbrev Verdict (α : Type) := Except (List Diagnostic) α

namespace Verdict

variable {α : Type}

/-- The type of the construct. -/
def ty : Verdict Ty → Ty
  | .ok ty => ty
  | .error _ => .error

/-- The faults to report. -/
def faults : Verdict α → List Diagnostic
  | .ok _ => []
  | .error faults => faults

/-- The code of a construct that is not at fault. -/
def code (f : α → Code) : Verdict α → Code
  | .ok a => f a
  | .error _ => []

@[simp] theorem ty_ok (ty : Ty) : Verdict.ty (.ok ty) = ty := rfl

@[simp] theorem ty_error (ds : List Diagnostic) : Verdict.ty (.error ds) = .error := rfl

@[simp] theorem faults_ok (a : α) : faults (.ok a) = [] := rfl

@[simp] theorem faults_error (ds : List Diagnostic) : faults (.error ds : Verdict α) = ds := rfl

@[simp] theorem code_ok (f : α → Code) (a : α) : code f (.ok a) = f a := rfl

@[simp] theorem code_error (f : α → Code) (ds : List Diagnostic) : code f (.error ds) = [] := rfl

@[simp] theorem mapError_ok {ε : Type} (f : ε → List Diagnostic) (a : α) :
    (Except.ok a : Except ε α).mapError f = .ok a := rfl

@[simp] theorem mapError_error {ε : Type} (f : ε → List Diagnostic) (fault : ε) :
    (Except.error fault : Except ε α).mapError f = .error (f fault) := rfl

end Verdict

/-- The code that converts the left operand. -/
def Widening.onLeft : Widening → Code
  | .left => [.unary .itof]
  | _ => []

/-- The code that converts the right operand. -/
def Widening.onRight : Widening → Code
  | .right => [.unary .itof]
  | _ => []

/-- A name that stands for its value. -/
def judgeName (loc : Location) (x : String) : Option Ty → Verdict Ty
  | some ty => .ok ty
  | none => .error [⟨loc, .undeclared x⟩]

/-- A unary operator. -/
def UnaryOp.judge (op : UnaryOp) (loc : Location) (operand : Ty) : Verdict Ty :=
  if operand.isError then .error []
  else (op.check operand).mapError fun fault => [⟨loc, fault⟩]

/-- A binary operator: the type of its result and the operand to convert. -/
def BinaryOp.judge (op : BinaryOp) (loc : Location) (left right : Ty) : Verdict (Ty × Widening) :=
  if left.isError || right.isError then .error []
  else (op.check left right).mapError fun fault => [⟨loc, fault⟩]

/-- An assignment: the type of its target and whether the value, on the right,
is converted. -/
def judgeAssignment (target : Ident) (found : Option Ty) (value : Ty) :
    Verdict (Ty × Widening) :=
  match found with
  | none => .error [⟨target.loc, .undeclared target.name⟩]
  | some ty =>
    if value.isError then .error []
    else if ty = value then .ok (ty, .none)
    else if ty = .float ∧ value = .int then .ok (ty, .right)
    else .error [⟨target.loc, .assignmentMismatch target.name ty value⟩]

/-- The faults of a condition. -/
def conditionFaults (loc : Location) (ty : Ty) : List Diagnostic :=
  if ty ≠ .bool ∧ ty ≠ .error then [⟨loc, .conditionNotBool ty⟩] else []

/-- A choice. -/
def judgeBranches (loc : Location) (cond onTrue onFalse : Ty) : Verdict Ty :=
  if cond ≠ .bool ∨ onTrue.isError ∨ onFalse.isError then .error []
  else if onTrue = onFalse then .ok onTrue
  else if onTrue.isNumeric && onFalse.isNumeric then .ok .float
  else .error [⟨loc, .branchMismatch onTrue onFalse⟩]

-- ---------------------------------------------------------------------------
-- Types, labels, faults and code
-- ---------------------------------------------------------------------------

namespace Expr

/-- The type of an expression. -/
def ty (Γ : Symbols) : Expr Literal → Ty
  | .literal _ value => value.toValue.ty
  | .name loc x => (judgeName loc x (Γ.find? x)).ty
  | .group _ inner => inner.ty Γ
  | .unary loc op operand => (op.judge loc (operand.ty Γ)).ty
  | .binary loc op left right => Verdict.ty ((op.judge loc (left.ty Γ) (right.ty Γ)).map Prod.fst)
  | .assign _ target value =>
    Verdict.ty ((judgeAssignment target (Γ.find? target.name) (value.ty Γ)).map Prod.fst)
  | .ternary loc cond onTrue onFalse =>
    (judgeBranches loc (cond.ty Γ) (onTrue.ty Γ) (onFalse.ty Γ)).ty

/-- How many labels the code of an expression takes: two for each choice. -/
def labelCount {L : Type} : Expr L → Nat
  | .literal _ _ => 0
  | .name _ _ => 0
  | .group _ inner => inner.labelCount
  | .unary _ _ operand => operand.labelCount
  | .binary _ _ left right => left.labelCount + right.labelCount
  | .assign _ _ value => value.labelCount
  | .ternary _ cond onTrue onFalse =>
    2 + cond.labelCount + onTrue.labelCount + onFalse.labelCount

/-- The faults of an expression, in the order in which they are found. -/
def faults (Γ : Symbols) : Expr Literal → List Diagnostic
  | .literal _ _ => []
  | .name loc x => (judgeName loc x (Γ.find? x)).faults
  | .group _ inner => inner.faults Γ
  | .unary loc op operand => operand.faults Γ ++ (op.judge loc (operand.ty Γ)).faults
  | .binary loc op left right =>
    left.faults Γ ++ right.faults Γ ++ (op.judge loc (left.ty Γ) (right.ty Γ)).faults
  | .assign _ target value =>
    value.faults Γ ++ (judgeAssignment target (Γ.find? target.name) (value.ty Γ)).faults
  | .ternary loc cond onTrue onFalse =>
    cond.faults Γ ++ conditionFaults cond.loc (cond.ty Γ) ++ onTrue.faults Γ ++
      onFalse.faults Γ ++ (judgeBranches loc (cond.ty Γ) (onTrue.ty Γ) (onFalse.ty Γ)).faults

/-- The code of an expression whose labels are numbered from `n` on. -/
def code (Γ : Symbols) : Nat → Expr Literal → Code
  | _, .literal _ value => [.push value.toValue]
  | _, .name loc x => (judgeName loc x (Γ.find? x)).code fun _ => [.load x]
  | n, .group _ inner => inner.code Γ n
  | n, .unary loc op operand =>
    operand.code Γ n ++ (op.judge loc (operand.ty Γ)).code fun _ => [op.instruction]
  | n, .binary loc op left right =>
    let verdict := op.judge loc (left.ty Γ) (right.ty Γ)
    left.code Γ n ++ verdict.code (fun r => r.2.onLeft) ++ right.code Γ (n + left.labelCount) ++
      verdict.code fun r => r.2.onRight ++ op.instructions r.1
  | n, .assign _ target value =>
    value.code Γ n ++ (judgeAssignment target (Γ.find? target.name) (value.ty Γ)).code fun r =>
      r.2.onRight ++ [.save target.name, .load target.name]
  | n, .ternary _ cond onTrue onFalse =>
    cond.code Γ (n + 2) ++ [.fjmp (.ofNat n)] ++
      onTrue.code Γ (n + 2 + cond.labelCount) ++
      [.jmp (.ofNat (n + 1)), .label (.ofNat n)] ++
      onFalse.code Γ (n + 2 + cond.labelCount + onTrue.labelCount) ++
      [.label (.ofNat (n + 1))]

end Expr

-- ---------------------------------------------------------------------------
-- The parts of compiling
-- ---------------------------------------------------------------------------

/-- Applying an operator whose operands are in place: the conversion of the left
one lands in front of the code `right` of the right one. -/
theorem compileOperator_apply (loc : Location) (op : BinaryOp) (left right : Ty) (s : Emitter)
    (c : Code) (k : Nat) (f : List Diagnostic) :
    compileOperator loc op left right s.code.length (s.extend c k f) =
      let verdict := op.judge loc left right
      (Verdict.ty (verdict.map Prod.fst),
        s.extend (verdict.code (fun r => r.2.onLeft) ++ c ++
          verdict.code fun r => r.2.onRight ++ op.instructions r.1) k (f ++ verdict.faults)) := by
  by_cases herr : (left.isError || right.isError) = true
  · simp [compileOperator, BinaryOp.judge, herr, Except.map]
  · cases hcheck : op.check left right with
    | error fault =>
      simp [compileOperator, BinaryOp.judge, herr, hcheck, Except.map, extend_extend]
    | ok result =>
      obtain ⟨ty, widening⟩ := result
      cases widening <;>
        simp [compileOperator, BinaryOp.judge, herr, hcheck, Except.map,
          Widening.onLeft, Widening.onRight, extend_extend]

theorem checkCondition_apply (loc : Location) (ty : Ty) (s : Emitter) :
    checkCondition loc ty s = ((), s.extend [] 0 (conditionFaults loc ty)) := by
  by_cases h : ty ≠ .bool ∧ ty ≠ .error
  · simp [checkCondition, conditionFaults, h]
  · simp only [checkCondition, conditionFaults, h, if_false]
    simp

theorem compileAssignment_apply (target : Ident) (value : Ty) (s : Emitter) :
    compileAssignment target value s =
      let verdict := judgeAssignment target (s.symbols.find? target.name) value
      (Verdict.ty (verdict.map Prod.fst),
        s.extend (verdict.code fun r => r.2.onRight ++ [.save target.name, .load target.name]) 0
          verdict.faults) := by
  rw [compileAssignment, emitter_bind_apply, typeOf?_apply]
  cases hfound : s.symbols.find? target.name with
  | none => simp [judgeAssignment, Except.map]
  | some ty =>
    by_cases herr : value.isError = true
    · simp [judgeAssignment, herr, Except.map]
    · by_cases heq : ty = value
      · simp [judgeAssignment, herr, heq, Except.map, Widening.onRight, extend_extend]
      · by_cases hwiden : ty = .float ∧ value = .int
        · simp [judgeAssignment, hwiden, Ty.isError, Except.map, Widening.onRight, extend_extend]
        · simp [judgeAssignment, herr, heq, hwiden, Except.map]

theorem checkBranches_apply (loc : Location) (cond onTrue onFalse : Ty) (s : Emitter) :
    checkBranches loc cond onTrue onFalse s =
      let verdict := judgeBranches loc cond onTrue onFalse
      (verdict.ty, s.extend [] 0 verdict.faults) := by
  by_cases herr : cond ≠ .bool ∨ onTrue.isError ∨ onFalse.isError
  · simp only [checkBranches, judgeBranches, if_pos herr]
    simp
  · by_cases heq : onTrue = onFalse
    · simp only [checkBranches, judgeBranches, if_neg herr, if_pos heq]
      simp
    · by_cases hnum : (onTrue.isNumeric && onFalse.isNumeric) = true
      · simp only [checkBranches, judgeBranches, if_neg herr, if_neg heq, if_pos hnum]
        simp
      · simp only [checkBranches, judgeBranches, if_neg herr, if_neg heq, if_neg hnum]
        simp

-- ---------------------------------------------------------------------------
-- Compiling an expression
-- ---------------------------------------------------------------------------

theorem checkCondition_adds (loc : Location) (ty : Ty) (Γ : Symbols) (n : Nat) :
    Adds (checkCondition loc ty) Γ n () [] 0 (conditionFaults loc ty) Γ := by
  intro s hs _
  rw [checkCondition_apply, ← hs]
  rfl

theorem compileAssignment_adds (target : Ident) (value : Ty) (Γ : Symbols) (n : Nat) :
    Adds (compileAssignment target value) Γ n
      (Verdict.ty ((judgeAssignment target (Γ.find? target.name) value).map Prod.fst))
      ((judgeAssignment target (Γ.find? target.name) value).code fun r =>
        r.2.onRight ++ [.save target.name, .load target.name]) 0
      (judgeAssignment target (Γ.find? target.name) value).faults Γ := by
  intro s hs _
  rw [compileAssignment_apply, ← hs]
  rfl

theorem checkBranches_adds (loc : Location) (cond onTrue onFalse : Ty) (Γ : Symbols) (n : Nat) :
    Adds (checkBranches loc cond onTrue onFalse) Γ n (judgeBranches loc cond onTrue onFalse).ty []
      0 (judgeBranches loc cond onTrue onFalse).faults Γ := by
  intro s hs _
  rw [checkBranches_apply, ← hs]
  rfl

/-- **Compiling an expression** appends its code, hands out its labels, reports
its faults and returns its type. What was there before stays as it is. -/
theorem Expr.compile_adds (e : Expr Literal) (Γ : Symbols) (n : Nat) :
    Adds e.compile Γ n (e.ty Γ) (e.code Γ n) e.labelCount (e.faults Γ) Γ := by
  induction e generalizing n with
  | literal loc value =>
    rw [compile]
    exact Adds.cast (Adds.bind (Adds.emit _) (Adds.pure _)) rfl rfl rfl
  | name loc x =>
    intro s hs _
    rw [compile, emitter_bind_apply, typeOf?_apply, ← hs]
    cases hfound : s.symbols.find? x <;>
      simp [ty, code, labelCount, faults, judgeName, hfound] <;> rfl
  | group loc inner ih => exact ih n
  | unary loc op operand ih =>
    intro s hs hn
    rw [compile, emitter_bind_apply, ih n s hs hn]
    by_cases herr : (operand.ty Γ).isError = true
    · simp [ty, code, labelCount, faults, UnaryOp.judge, herr]
    · cases hcheck : op.check (operand.ty Γ) <;>
        simp [ty, code, labelCount, faults, UnaryOp.judge, herr, hcheck, extend_extend]
  | binary loc op left right ihl ihr =>
    -- the end of the left operand is remembered before the right one is compiled
    intro s hs hn
    let t := (s.extend (left.code Γ n) left.labelCount (left.faults Γ)).withSymbols Γ
    have hr : right.compile t = (right.ty Γ, t.extend (right.code Γ (n + left.labelCount))
        right.labelCount (right.faults Γ)) :=
      ihr (n + left.labelCount) t rfl (extend_nextLabel s (left.code Γ n) _ (left.faults Γ) hn)
    rw [compile, emitter_bind_apply, ihl n s hs hn]
    show compileOperator loc op (left.ty Γ) (right.compile t).1 t.code.length
      (right.compile t).2 = _
    rw [hr, compileOperator_apply]
    simp [t, extend_extend, ty, code, labelCount, faults]
  | assign loc target value ih =>
    rw [compile]
    exact Adds.cast (Adds.bind (ih n) (compileAssignment_adds target _ Γ _)) rfl rfl rfl
  | ternary loc cond onTrue onFalse ihc iht ihf =>
    rw [compile]
    refine Adds.cast (Adds.bind Adds.freshLabel <| Adds.bind Adds.freshLabel <|
      Adds.bind (ihc (n + 2)) <| Adds.bind (checkCondition_adds cond.loc _ Γ _) <|
      Adds.bind (Adds.emit _) <| Adds.bind (iht (n + 2 + cond.labelCount)) <|
      Adds.bind (Adds.emit _) <| Adds.bind (Adds.emit _) <|
      Adds.bind (ihf (n + 2 + cond.labelCount + onTrue.labelCount)) <|
      Adds.bind (Adds.emit _) (checkBranches_adds loc _ _ _ Γ _)) ?_ ?_ ?_
    · simp [code]
    · simp only [labelCount]
      omega
    · simp [faults]

/-- What compiling an expression does to a state. -/
theorem Expr.compile_apply (e : Expr Literal) (s : Emitter) :
    e.compile s = (e.ty s.symbols,
      s.extend (e.code s.symbols s.nextLabel.toNat) e.labelCount (e.faults s.symbols)) :=
  e.compile_adds s.symbols s.nextLabel.toNat s rfl UInt32.ofNat_toNat.symm

end Cairn
