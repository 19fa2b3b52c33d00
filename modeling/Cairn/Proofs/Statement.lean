import Cairn.Proofs.Fragment

/-!
# Cairn — the code of a statement, by its shape

The table of declared names grows while a program is compiled: a declaration
counts for all text behind it, whatever branch or loop it stands in. So the
code of a statement depends on the table in front of it.

## Main statements

* `Stmt.compile_adds`  — compiling a statement appends its code, labels and
  faults, and declares its names.
* `Program.compile_eq` — what compiling a program comes to.
-/

namespace Cairn

open Emitter

-- ---------------------------------------------------------------------------
-- Induction on statements
-- ---------------------------------------------------------------------------

/-- Induction on statements, where a block is peeled off statement by
statement. -/
@[elab_as_elim]
theorem Stmt.induction {L : Type} {P : Stmt L → Prop}
    (empty : ∀ loc, P (.empty loc))
    (declaration : ∀ loc ty names, P (.declaration loc ty names))
    (expression : ∀ loc e, P (.expression loc e))
    (read : ∀ loc names, P (.read loc names))
    (write : ∀ loc exprs, P (.write loc exprs))
    (blockNil : ∀ loc, P (.block loc []))
    (blockCons : ∀ loc s rest, P s → P (.block loc rest) → P (.block loc (s :: rest)))
    (ifThen : ∀ loc cond onTrue, P onTrue → P (.ifThen loc cond onTrue))
    (ifElse : ∀ loc cond onTrue onFalse, P onTrue → P onFalse →
      P (.ifElse loc cond onTrue onFalse))
    (whileDo : ∀ loc cond body, P body → P (.whileDo loc cond body))
    (doWhile : ∀ loc body cond, P body → P (.doWhile loc body cond))
    (s : Stmt L) : P s :=
  @Stmt.rec L P (fun body => ∀ loc, P (.block loc body))
    empty declaration expression read write (fun loc _ ih => ih loc) ifThen ifElse whileDo doWhile
    blockNil (fun s rest ihs ihrest loc => blockCons loc s rest ihs (ihrest loc)) s

-- ---------------------------------------------------------------------------
-- Names, labels and faults
-- ---------------------------------------------------------------------------

/-- The table with a name declared in it, if it was not there yet. -/
def Symbols.with (Γ : Symbols) (x : String) (ty : Ty) : Symbols :=
  match Γ.declare x ty with
  | .ok Γ' => Γ'
  | .error _ => Γ

/-- The table behind declarations of one type. -/
def declareAll (ty : Ty) : Symbols → List Ident → Symbols
  | Γ, [] => Γ
  | Γ, x :: rest => declareAll ty (Γ.with x.name ty) rest

/-- The faults of declarations: names that are in the table already. -/
def declareFaults (ty : Ty) : Symbols → List Ident → List Diagnostic
  | _, [] => []
  | Γ, x :: rest =>
    (match Γ.find? x.name with
    | some _ => [⟨x.loc, .redeclared x.name⟩]
    | none => []) ++ declareFaults ty (Γ.with x.name ty) rest

/-- The code that sets a name to the zero of a type. -/
def zeroCode (ty : Ty) (x : Ident) : Code :=
  match ty.zero? with
  | some zero => [.push zero, .save x.name]
  | none => []

/-- The code of declarations; a name that is there already is left alone. -/
def declareCodeFrom (ty : Ty) : Symbols → List Ident → Code
  | _, [] => []
  | Γ, x :: rest =>
    (match Γ.find? x.name with
    | some _ => []
    | none => zeroCode ty x) ++ declareCodeFrom ty (Γ.with x.name ty) rest

/-- The tag under which a name is read. -/
def readTag? (Γ : Symbols) (x : Ident) : Option Tag :=
  (Γ.find? x.name).bind Ty.tag?

/-- The code that reads a name. -/
def readCode (Γ : Symbols) (x : Ident) : Code :=
  match readTag? Γ x with
  | some tag => [.read tag, .save x.name]
  | none => []

/-- The faults of reading a name. -/
def readFaults (Γ : Symbols) (x : Ident) : List Diagnostic :=
  match readTag? Γ x with
  | some _ => []
  | none => [⟨x.loc, .undeclared x.name⟩]

/-- How many labels the code of a list of expressions takes. -/
def labelCounts {L : Type} : List (Expr L) → Nat
  | [] => 0
  | e :: rest => e.labelCount + labelCounts rest

/-- The code of expressions one after the other. -/
def exprsCode (Γ : Symbols) : Nat → List (Expr Literal) → Code
  | _, [] => []
  | n, e :: rest => e.code Γ n ++ exprsCode Γ (n + e.labelCount) rest

/-- The faults of a condition and of what it is made of. -/
def Expr.conditionFaults (Γ : Symbols) (cond : Expr Literal) : List Diagnostic :=
  cond.faults Γ ++ Cairn.conditionFaults cond.loc (cond.ty Γ)

namespace Stmt

mutual

/-- How many labels the code of a statement takes. -/
def labelCount {L : Type} : Stmt L → Nat
  | .empty _ => 0
  | .declaration _ _ _ => 0
  | .expression _ e => e.labelCount
  | .read _ _ => 0
  | .write _ exprs => labelCounts exprs
  | .block _ body => labelCountAll body
  | .ifThen _ cond onTrue => 1 + cond.labelCount + onTrue.labelCount
  | .ifElse _ cond onTrue onFalse =>
    2 + cond.labelCount + onTrue.labelCount + onFalse.labelCount
  | .whileDo _ cond body => 2 + cond.labelCount + body.labelCount
  | .doWhile _ body cond => 2 + body.labelCount + cond.labelCount

/-- How many labels the code of statements takes. -/
def labelCountAll {L : Type} : List (Stmt L) → Nat
  | [] => 0
  | s :: rest => s.labelCount + labelCountAll rest

end

mutual

/-- The table behind a statement. -/
def symbolsAfter (Γ : Symbols) : Stmt Literal → Symbols
  | .declaration _ ty names => declareAll ty Γ names
  | .block _ body => symbolsAfterAll Γ body
  | .ifThen _ _ onTrue => onTrue.symbolsAfter Γ
  | .ifElse _ _ onTrue onFalse => onFalse.symbolsAfter (onTrue.symbolsAfter Γ)
  | .whileDo _ _ body => body.symbolsAfter Γ
  | .doWhile _ body _ => body.symbolsAfter Γ
  | _ => Γ

/-- The table behind statements. -/
def symbolsAfterAll (Γ : Symbols) : List (Stmt Literal) → Symbols
  | [] => Γ
  | s :: rest => symbolsAfterAll (s.symbolsAfter Γ) rest

end

mutual

/-- The faults of a statement behind a table. -/
def faultsFrom (Γ : Symbols) : Stmt Literal → List Diagnostic
  | .empty _ => []
  | .declaration _ ty names => declareFaults ty Γ names
  | .expression _ e => e.faults Γ
  | .read _ names => names.flatMap (readFaults Γ)
  | .write _ exprs => exprs.flatMap (Expr.faults Γ)
  | .block _ body => faultsFromAll Γ body
  | .ifThen _ cond onTrue => cond.conditionFaults Γ ++ onTrue.faultsFrom Γ
  | .ifElse _ cond onTrue onFalse =>
    cond.conditionFaults Γ ++ onTrue.faultsFrom Γ ++ onFalse.faultsFrom (onTrue.symbolsAfter Γ)
  | .whileDo _ cond body => cond.conditionFaults Γ ++ body.faultsFrom Γ
  | .doWhile _ body cond => body.faultsFrom Γ ++ cond.conditionFaults (body.symbolsAfter Γ)

/-- The faults of statements behind a table. -/
def faultsFromAll (Γ : Symbols) : List (Stmt Literal) → List Diagnostic
  | [] => []
  | s :: rest => s.faultsFrom Γ ++ faultsFromAll (s.symbolsAfter Γ) rest

end

mutual

/-- The code of a statement behind a table, its labels numbered from `n` on. -/
def codeFrom (Γ : Symbols) : Nat → Stmt Literal → Code
  | _, .empty _ => []
  | _, .declaration _ ty names => declareCodeFrom ty Γ names
  | n, .expression _ e => e.code Γ n ++ [.pop]
  | _, .read _ names => names.flatMap (readCode Γ)
  | n, .write _ exprs => exprsCode Γ n exprs ++ [.print (.ofNat exprs.length)]
  | n, .block _ body => codeFromAll Γ n body
  | n, .ifThen _ cond onTrue =>
    cond.code Γ (n + 1) ++ [.fjmp (.ofNat n)] ++
      onTrue.codeFrom Γ (n + 1 + cond.labelCount) ++ [.label (.ofNat n)]
  | n, .ifElse _ cond onTrue onFalse =>
    cond.code Γ (n + 2) ++ [.fjmp (.ofNat n)] ++
      onTrue.codeFrom Γ (n + 2 + cond.labelCount) ++
      [.jmp (.ofNat (n + 1)), .label (.ofNat n)] ++
      onFalse.codeFrom (onTrue.symbolsAfter Γ) (n + 2 + cond.labelCount + onTrue.labelCount) ++
      [.label (.ofNat (n + 1))]
  | n, .whileDo _ cond body =>
    [.label (.ofNat n)] ++ cond.code Γ (n + 2) ++ [.fjmp (.ofNat (n + 1))] ++
      body.codeFrom Γ (n + 2 + cond.labelCount) ++
      [.jmp (.ofNat n), .label (.ofNat (n + 1))]
  | n, .doWhile _ body cond =>
    [.label (.ofNat n)] ++ body.codeFrom Γ (n + 2) ++
      cond.code (body.symbolsAfter Γ) (n + 2 + body.labelCount) ++
      [.fjmp (.ofNat (n + 1)), .jmp (.ofNat n), .label (.ofNat (n + 1))]

/-- The code of statements behind a table. -/
def codeFromAll (Γ : Symbols) : Nat → List (Stmt Literal) → Code
  | _, [] => []
  | n, s :: rest => s.codeFrom Γ n ++ codeFromAll (s.symbolsAfter Γ) (n + s.labelCount) rest

end

end Stmt

-- ---------------------------------------------------------------------------
-- Compiling a statement
-- ---------------------------------------------------------------------------

theorem compileDeclaration_known {ty old : Ty} {x : Ident} {s : Emitter}
    (hfound : s.symbols.find? x.name = some old) :
    compileDeclaration ty x s = ((), s.extend [] 0 [⟨x.loc, .redeclared x.name⟩]) := by
  simp [compileDeclaration, Symbols.declare, hfound]

theorem compileDeclaration_new {ty : Ty} {x : Ident} {s : Emitter}
    (hfound : s.symbols.find? x.name = none) :
    compileDeclaration ty x s =
      ((), (s.extend (zeroCode ty x) 0 []).withSymbols (s.symbols.insert x.name ty)) := by
  have hset : ({ s with symbols := s.symbols.insert x.name ty } : Emitter) =
      s.withSymbols (s.symbols.insert x.name ty) := rfl
  cases hzero : ty.zero? <;>
    simp [compileDeclaration, Symbols.declare, hfound, hzero, hset, zeroCode, extend_extend]

theorem compileDeclarations_apply (ty : Ty) (names : List Ident) (s : Emitter) :
    compileDeclarations ty names s =
      ((), (s.extend (declareCodeFrom ty s.symbols names) 0
        (declareFaults ty s.symbols names)).withSymbols (declareAll ty s.symbols names)) := by
  induction names generalizing s with
  | nil => simp [compileDeclarations, declareCodeFrom, declareFaults, declareAll, withSymbols_self]
  | cons x rest ih =>
    rw [compileDeclarations, emitter_bind_apply, ih]
    cases hfound : s.symbols.find? x.name with
    | some old =>
      simp [compileDeclaration_known hfound, declareCodeFrom, declareFaults, declareAll, hfound,
        Symbols.with, Symbols.declare, extend_extend]
    | none =>
      simp [compileDeclaration_new hfound, declareCodeFrom, declareFaults, declareAll, hfound,
        Symbols.with, Symbols.declare, extend_extend]

theorem compileReads_apply (names : List Ident) (s : Emitter) :
    compileReads names s =
      ((), s.extend (names.flatMap (readCode s.symbols)) 0
        (names.flatMap (readFaults s.symbols))) := by
  induction names generalizing s with
  | nil => simp [compileReads]
  | cons x rest ih =>
    have hone : compileRead x s =
        ((), s.extend (readCode s.symbols x) 0 (readFaults s.symbols x)) := by
      rw [compileRead, emitter_bind_apply, typeOf?_apply]
      cases htag : (s.symbols.find? x.name).bind Ty.tag? <;>
        simp [htag, readCode, readFaults, readTag?, extend_extend]
    rw [compileReads, emitter_bind_apply, hone, ih]
    simp [extend_extend]

theorem compileExprs_adds (exprs : List (Expr Literal)) (Γ : Symbols) (n : Nat) :
    Adds (compileExprs exprs) Γ n () (exprsCode Γ n exprs) (labelCounts exprs)
      (exprs.flatMap (Expr.faults Γ)) Γ := by
  induction exprs generalizing n with
  | nil => exact Adds.pure ()
  | cons e rest ih =>
    rw [compileExprs]
    exact Adds.cast (Adds.bind (e.compile_adds Γ n) (ih (n + e.labelCount))) rfl rfl
      List.flatMap_cons.symm

theorem compileCondition_adds (cond : Expr Literal) (Γ : Symbols) (n : Nat) :
    Adds cond.compileCondition Γ n () (cond.code Γ n) cond.labelCount (cond.conditionFaults Γ)
      Γ := by
  rw [Expr.compileCondition]
  exact Adds.cast (Adds.bind (cond.compile_adds Γ n) (checkCondition_adds _ _ Γ _))
    (List.append_nil _) rfl rfl

/-- **Compiling a statement** appends its code, hands out its labels, reports
its faults and declares its names. -/
theorem Stmt.compile_adds (t : Stmt Literal) (Γ : Symbols) (n : Nat) :
    Adds t.compile Γ n () (t.codeFrom Γ n) t.labelCount (t.faultsFrom Γ) (t.symbolsAfter Γ) := by
  induction t using Stmt.induction generalizing Γ n with
  | empty loc => exact Adds.pure ()
  | declaration loc ty names =>
    intro s hs _
    rw [compile, compileDeclarations_apply, ← hs]
    rfl
  | expression loc e =>
    rw [compile]
    exact Adds.cast (Adds.bind (e.compile_adds Γ n) (Adds.emit _)) rfl rfl (List.append_nil _)
  | read loc names =>
    intro s hs _
    rw [compile, compileReads_apply, ← hs]
    rfl
  | write loc exprs =>
    rw [compile]
    exact Adds.cast (Adds.bind (compileExprs_adds exprs Γ n) (Adds.emit _)) rfl rfl
      (List.append_nil _)
  | blockNil loc => exact Adds.pure ()
  | blockCons loc t rest iht ihrest =>
    rw [compile, compileAll]
    exact Adds.cast (Adds.bind (iht Γ n) (ihrest (t.symbolsAfter Γ) (n + t.labelCount))) rfl rfl rfl
  | ifThen loc cond onTrue ih =>
    rw [compile]
    refine Adds.cast (Adds.bind Adds.freshLabel <|
      Adds.bind (compileCondition_adds cond Γ (n + 1)) <| Adds.bind (Adds.emit _) <|
      Adds.bind (ih Γ (n + 1 + cond.labelCount)) (Adds.emit _)) ?_ ?_ ?_
    · simp [codeFrom]
    · simp only [labelCount]
      omega
    · simp [faultsFrom]
  | ifElse loc cond onTrue onFalse iht ihf =>
    rw [compile]
    refine Adds.cast (Adds.bind Adds.freshLabel <| Adds.bind Adds.freshLabel <|
      Adds.bind (compileCondition_adds cond Γ (n + 2)) <| Adds.bind (Adds.emit _) <|
      Adds.bind (iht Γ (n + 2 + cond.labelCount)) <| Adds.bind (Adds.emit _) <|
      Adds.bind (Adds.emit _) <|
      Adds.bind (ihf (onTrue.symbolsAfter Γ) (n + 2 + cond.labelCount + onTrue.labelCount))
      (Adds.emit _)) ?_ ?_ ?_
    · simp [codeFrom]
    · simp only [labelCount]
      omega
    · simp [faultsFrom]
  | whileDo loc cond body ih =>
    rw [compile]
    refine Adds.cast (Adds.bind Adds.freshLabel <| Adds.bind Adds.freshLabel <|
      Adds.bind (Adds.emit _) <| Adds.bind (compileCondition_adds cond Γ (n + 2)) <|
      Adds.bind (Adds.emit _) <| Adds.bind (ih Γ (n + 2 + cond.labelCount)) <|
      Adds.bind (Adds.emit _) (Adds.emit _)) ?_ ?_ ?_
    · simp [codeFrom]
    · simp only [labelCount]
      omega
    · simp [faultsFrom]
  | doWhile loc body cond ih =>
    rw [compile]
    refine Adds.cast (Adds.bind Adds.freshLabel <| Adds.bind Adds.freshLabel <|
      Adds.bind (Adds.emit _) <| Adds.bind (ih Γ (n + 2)) <|
      Adds.bind (compileCondition_adds cond (body.symbolsAfter Γ) (n + 2 + body.labelCount)) <|
      Adds.bind (Adds.emit _) <| Adds.bind (Adds.emit _) (Adds.emit _)) ?_ ?_ ?_
    · simp [codeFrom]
    · simp only [labelCount]
      omega
    · simp [faultsFrom]

/-- What compiling a statement does to a state. -/
theorem Stmt.compile_apply (t : Stmt Literal) (s : Emitter) :
    t.compile s = ((), (s.extend (t.codeFrom s.symbols s.nextLabel.toNat) t.labelCount
      (t.faultsFrom s.symbols)).withSymbols (t.symbolsAfter s.symbols)) :=
  t.compile_adds s.symbols s.nextLabel.toNat s rfl UInt32.ofNat_toNat.symm

/-- A program as one statement. A block opens no scope of its own. -/
def Program.asBlock (program : Program) : Stmt Literal :=
  .block (.between { } { }) program

/-- The names that a program declares. -/
def Program.symbols (program : Program) : Symbols :=
  program.asBlock.symbolsAfter .empty

/-- **Compiling a program**: its code, table and faults are those of its
statements behind the empty table. -/
theorem Program.compile_eq (program : Program) :
    program.compile =
      (Emitter.start.extend (program.asBlock.codeFrom .empty 0) program.asBlock.labelCount
        (program.asBlock.faultsFrom .empty)).withSymbols program.symbols :=
  congrArg Prod.snd (program.asBlock.compile_adds .empty 0 .start rfl rfl)

end Cairn
