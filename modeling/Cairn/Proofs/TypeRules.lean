import Cairn.Proofs.Typing

/-!
# Cairn — the type rules

The checker goes over a program once, with a table that grows and a mark for
expressions in which a fault was reported. The rules it is meant to follow know
neither: they say which types an operator accepts, which type an expression has
in a scope, and which scope a statement leaves behind. A declaration counts for
all text behind it, whatever branch, loop or block it stands in.

## Main definitions

* `Expr.HasType`     — an expression has a type in a scope.
* `Stmt.Derivable`   — a statement follows the rules and leads to a scope.

## Main statements

* `Expr.hasType_iff`   — the rules and the checker agree on expressions.
* `Stmt.Derivable.clean`, `Stmt.derivable_of_clean` — they agree on statements.
* `Program.clean_iff_derivable` — no diagnostics exactly for programs that
  follow the rules, with their types and their table of names.
-/

namespace Cairn

-- ---------------------------------------------------------------------------
-- Rules
-- ---------------------------------------------------------------------------

/-- The types of numbers. -/
def Ty.Number (τ : Ty) : Prop :=
  τ = .int ∨ τ = .float

/-- The operand that a unary operator accepts, and the type of its result. -/
inductive UnaryOp.Accepts : UnaryOp → Ty → Ty → Prop
  | neg {τ : Ty} : τ.Number → Accepts .neg τ τ
  | not : Accepts .not .bool .bool

/-- The operands that a binary operator accepts, and the type of its result. -/
inductive BinaryOp.Accepts : BinaryOp → Ty → Ty → Ty → Prop
  | whole {op : BinaryOp} : op ∈ [add, sub, mul, div] → Accepts op .int .int .int
  | float {op : BinaryOp} {σ τ : Ty} : op ∈ [add, sub, mul, div] → σ.Number → τ.Number →
      σ = .float ∨ τ = .float → Accepts op σ τ .float
  | remainder : Accepts mod .int .int .int
  | joined : Accepts concat .string .string .string
  | order {op : BinaryOp} {σ τ : Ty} : op ∈ [lt, gt] → σ.Number → τ.Number →
      Accepts op σ τ .bool
  | equalNumbers {op : BinaryOp} {σ τ : Ty} : op ∈ [eq, ne] → σ.Number → τ.Number →
      Accepts op σ τ .bool
  | equalTypes {op : BinaryOp} {τ : Ty} : op ∈ [eq, ne] → Accepts op τ τ .bool
  | connective {op : BinaryOp} : op ∈ [and, or] → Accepts op .bool .bool .bool

/-- A variable of the one type can be given a value of the other. -/
inductive Ty.Stores : Ty → Ty → Prop
  | same {τ : Ty} : Stores τ τ
  | widened : Stores .float .int

/-- The type of a choice between values of two types. -/
inductive Ty.Merges : Ty → Ty → Ty → Prop
  | same {τ : Ty} : Merges τ τ τ
  | intFloat : Merges .int .float .float
  | floatInt : Merges .float .int .float

/-- The declared names, with their types. -/
abbrev Scope := String → Option Ty

/-- Before anything is declared. -/
def Scope.empty : Scope := fun _ => none

/-- The scope with one more name. -/
def Scope.with (Γ : Scope) (x : String) (τ : Ty) : Scope :=
  fun y => if x = y then some τ else Γ y

/-- The expression has a type in the scope. -/
inductive Expr.HasType (Γ : Scope) : Expr Literal → Ty → Prop
  | int {loc : Location} {i : Int64} : HasType Γ (.literal loc (.int i)) .int
  | float {loc : Location} {x : Double} : HasType Γ (.literal loc (.float x)) .float
  | bool {loc : Location} {b : Bool} : HasType Γ (.literal loc (.bool b)) .bool
  | str {loc : Location} {s : String} : HasType Γ (.literal loc (.str s)) .string
  | name {loc : Location} {x : String} {τ : Ty} : Γ x = some τ → HasType Γ (.name loc x) τ
  | group {loc : Location} {e : Expr Literal} {τ : Ty} : HasType Γ e τ →
      HasType Γ (.group loc e) τ
  | unary {loc : Location} {op : UnaryOp} {e : Expr Literal} {σ τ : Ty} : HasType Γ e σ →
      op.Accepts σ τ → HasType Γ (.unary loc op e) τ
  | binary {loc : Location} {op : BinaryOp} {l r : Expr Literal} {ρ σ τ : Ty} :
      HasType Γ l ρ → HasType Γ r σ → op.Accepts ρ σ τ → HasType Γ (.binary loc op l r) τ
  | assign {loc : Location} {target : Ident} {e : Expr Literal} {σ τ : Ty} :
      Γ target.name = some τ → HasType Γ e σ → τ.Stores σ → HasType Γ (.assign loc target e) τ
  | ternary {loc : Location} {c t f : Expr Literal} {ρ σ τ : Ty} : HasType Γ c .bool →
      HasType Γ t ρ → HasType Γ f σ → Ty.Merges ρ σ τ → HasType Γ (.ternary loc c t f) τ

/-- The names are new, and in scope one after the other. -/
inductive Declares (τ : Ty) : Scope → List Ident → Scope → Prop
  | nil {Γ : Scope} : Declares τ Γ [] Γ
  | cons {Γ Δ : Scope} {x : Ident} {names : List Ident} : Γ x.name = none →
      Declares τ (Γ.with x.name τ) names Δ → Declares τ Γ (x :: names) Δ

/-- The statement follows the rules in the scope `Γ`, and behind it the scope is
`Δ`. The parts of a statement are looked at in the order of the text. -/
inductive Stmt.Derivable : Scope → Stmt Literal → Scope → Prop
  | empty {Γ : Scope} {loc : Location} : Derivable Γ (.empty loc) Γ
  | declaration {Γ Δ : Scope} {loc : Location} {τ : Ty} {names : List Ident} :
      Declares τ Γ names Δ → Derivable Γ (.declaration loc τ names) Δ
  | expression {Γ : Scope} {loc : Location} {e : Expr Literal} {τ : Ty} : e.HasType Γ τ →
      Derivable Γ (.expression loc e) Γ
  | read {Γ : Scope} {loc : Location} {names : List Ident} :
      (∀ x ∈ names, ∃ τ, Γ x.name = some τ) → Derivable Γ (.read loc names) Γ
  | write {Γ : Scope} {loc : Location} {exprs : List (Expr Literal)} :
      (∀ e ∈ exprs, ∃ τ, e.HasType Γ τ) → Derivable Γ (.write loc exprs) Γ
  | blockNil {Γ : Scope} {loc : Location} : Derivable Γ (.block loc []) Γ
  | blockCons {Γ Δ Θ : Scope} {loc : Location} {s : Stmt Literal} {rest : List (Stmt Literal)} :
      Derivable Γ s Δ → Derivable Δ (.block loc rest) Θ → Derivable Γ (.block loc (s :: rest)) Θ
  | ifThen {Γ Δ : Scope} {loc : Location} {cond : Expr Literal} {onTrue : Stmt Literal} :
      cond.HasType Γ .bool → Derivable Γ onTrue Δ → Derivable Γ (.ifThen loc cond onTrue) Δ
  | ifElse {Γ Δ Θ : Scope} {loc : Location} {cond : Expr Literal}
      {onTrue onFalse : Stmt Literal} : cond.HasType Γ .bool → Derivable Γ onTrue Δ →
      Derivable Δ onFalse Θ → Derivable Γ (.ifElse loc cond onTrue onFalse) Θ
  | whileDo {Γ Δ : Scope} {loc : Location} {cond : Expr Literal} {body : Stmt Literal} :
      cond.HasType Γ .bool → Derivable Γ body Δ → Derivable Γ (.whileDo loc cond body) Δ
  | doWhile {Γ Δ : Scope} {loc : Location} {body : Stmt Literal} {cond : Expr Literal} :
      Derivable Γ body Δ → cond.HasType Δ .bool → Derivable Γ (.doWhile loc body cond) Δ

/-- The program follows the rules. -/
def Program.Derivable (program : Program) : Prop :=
  ∃ Δ, Stmt.Derivable .empty program.asBlock Δ

mutual

/-- The names that a statement declares, in the order of the text. -/
def Stmt.declarations {L : Type} : Stmt L → List (String × Ty)
  | .declaration _ τ names => names.map fun x => (x.name, τ)
  | .block _ body => Stmt.declarationsAll body
  | .ifThen _ _ onTrue => onTrue.declarations
  | .ifElse _ _ onTrue onFalse => onTrue.declarations ++ onFalse.declarations
  | .whileDo _ _ body => body.declarations
  | .doWhile _ body _ => body.declarations
  | _ => []

/-- The names that statements declare, in the order of the text. -/
def Stmt.declarationsAll {L : Type} : List (Stmt L) → List (String × Ty)
  | [] => []
  | s :: rest => s.declarations ++ Stmt.declarationsAll rest

end

-- ---------------------------------------------------------------------------
-- Operators
-- ---------------------------------------------------------------------------

theorem Ty.number_iff {τ : Ty} : τ.Number ↔ τ.isNumeric := by
  cases τ <;> simp [Number, isNumeric]

theorem UnaryOp.check_eq_ok {op : UnaryOp} {σ τ : Ty} : op.check σ = .ok τ ↔ op.Accepts σ τ := by
  constructor
  · intro h
    cases op <;> cases σ <;> cases h
    · exact .neg (.inl rfl)
    · exact .neg (.inr rfl)
    · exact .not
  · rintro (⟨rfl | rfl⟩ | _) <;> rfl

/-- Whatever the checker accepts, the rules do. -/
theorem BinaryOp.accepts_of_check {op : BinaryOp} {ρ σ τ : Ty} {w : Widening}
    (h : op.check ρ σ = .ok (τ, w)) : op.Accepts ρ σ τ := by
  cases op
  case add | sub | mul | div =>
    obtain ⟨hρ, hσ, hresult⟩ := checkEach_eq_ok.mp h
    rw [← Ty.number_iff] at hρ hσ
    by_cases hwhole : ρ = .int ∧ σ = .int
    · obtain ⟨rfl, rfl⟩ := hwhole
      cases hresult
      exact .whole (by decide)
    · have hfloat : ρ = .float ∨ σ = .float := by
        rcases hρ with rfl | hρ
        · exact .inr (hσ.resolve_left fun hint => hwhole ⟨rfl, hint⟩)
        · exact .inl hρ
      rw [if_neg hwhole] at hresult
      cases hresult
      exact .float (by decide) hρ hσ hfloat
  case mod =>
    obtain ⟨hρ, hσ, hresult⟩ := checkEach_eq_ok.mp h
    obtain rfl := eq_of_beq hρ
    obtain rfl := eq_of_beq hσ
    cases hresult
    exact .remainder
  case concat =>
    obtain ⟨hρ, hσ, hresult⟩ := checkEach_eq_ok.mp h
    obtain rfl := eq_of_beq hρ
    obtain rfl := eq_of_beq hσ
    cases hresult
    exact .joined
  case lt | gt =>
    obtain ⟨hρ, hσ, hresult⟩ := checkEach_eq_ok.mp h
    cases hresult
    exact .order (by decide) (Ty.number_iff.mpr hρ) (Ty.number_iff.mpr hσ)
  case and | or =>
    obtain ⟨hρ, hσ, hresult⟩ := checkEach_eq_ok.mp h
    obtain rfl := eq_of_beq hρ
    obtain rfl := eq_of_beq hσ
    cases hresult
    exact .connective (by decide)
  case eq | ne =>
    simp only [check] at h
    split at h
    · next hnumbers =>
      rw [Bool.and_eq_true, ← Ty.number_iff, ← Ty.number_iff] at hnumbers
      cases h
      exact .equalNumbers (by decide) hnumbers.1 hnumbers.2
    · split at h
      · next hsame =>
        obtain rfl := hsame
        cases h
        exact .equalTypes (by decide)
      · cases h

/-- Whatever the rules accept, the checker does. -/
theorem BinaryOp.Accepts.check {op : BinaryOp} {ρ σ τ : Ty} (h : op.Accepts ρ σ τ) :
    ∃ w, op.check ρ σ = .ok (τ, w) := by
  cases h with
  | whole hop =>
    simp only [List.mem_cons, List.not_mem_nil, or_false] at hop
    rcases hop with rfl | rfl | rfl | rfl <;> exact ⟨_, rfl⟩
  | float hop hρ hσ hfloat =>
    have hwhole : ¬ (ρ = .int ∧ σ = .int) := by
      rintro ⟨rfl, rfl⟩
      rcases hfloat with h | h <;> cases h
    simp only [List.mem_cons, List.not_mem_nil, or_false] at hop
    rcases hop with rfl | rfl | rfl | rfl <;>
      exact ⟨_, checkEach_eq_ok.mpr
        ⟨Ty.number_iff.mp hρ, Ty.number_iff.mp hσ, by rw [if_neg hwhole]⟩⟩
  | remainder => exact ⟨_, rfl⟩
  | joined => exact ⟨_, rfl⟩
  | order hop hρ hσ =>
    simp only [List.mem_cons, List.not_mem_nil, or_false] at hop
    rcases hop with rfl | rfl <;>
      exact ⟨_, checkEach_eq_ok.mpr ⟨Ty.number_iff.mp hρ, Ty.number_iff.mp hσ, rfl⟩⟩
  | equalNumbers hop hρ hσ =>
    have hnumbers : (ρ.isNumeric && σ.isNumeric) = true :=
      Bool.and_eq_true_iff.mpr ⟨Ty.number_iff.mp hρ, Ty.number_iff.mp hσ⟩
    simp only [List.mem_cons, List.not_mem_nil, or_false] at hop
    rcases hop with rfl | rfl <;> exact ⟨_, if_pos hnumbers⟩
  | equalTypes hop =>
    simp only [List.mem_cons, List.not_mem_nil, or_false] at hop
    rcases hop with rfl | rfl <;> cases ρ <;> exact ⟨_, rfl⟩
  | connective hop =>
    simp only [List.mem_cons, List.not_mem_nil, or_false] at hop
    rcases hop with rfl | rfl <;> exact ⟨_, rfl⟩

-- ---------------------------------------------------------------------------
-- Expressions
-- ---------------------------------------------------------------------------

namespace Expr

variable {Γ : Symbols} {τ : Ty}

/-- An expression with a type by the rules has no faults, and the checker gives
it that type. -/
theorem HasType.clean (hreal : Γ.Real) {e : Expr Literal} (h : e.HasType Γ.find? τ) :
    e.faults Γ = [] ∧ e.ty Γ = τ := by
  induction h with
  | int | float | bool | str => exact ⟨rfl, rfl⟩
  | name hx => simp [faults, Expr.ty, judgeName, hx]
  | group _ ih => exact ih
  | @unary loc op e σ τ _ haccepts ih =>
    obtain ⟨hfaults, rfl⟩ := ih
    have hjudge : op.judge loc (e.ty Γ) = .ok τ :=
      UnaryOp.judge_eq_ok.mpr (UnaryOp.check_eq_ok.mpr haccepts)
    simp [faults, Expr.ty, hfaults, hjudge]
  | @binary loc op l r ρ σ τ _ _ haccepts ihl ihr =>
    obtain ⟨hl, rfl⟩ := ihl
    obtain ⟨hr, rfl⟩ := ihr
    obtain ⟨w, hcheck⟩ := haccepts.check
    have hjudge : op.judge loc (l.ty Γ) (r.ty Γ) = .ok (τ, w) :=
      BinaryOp.judge_eq_ok.mpr ⟨ty_ne_error hreal hl, ty_ne_error hreal hr, hcheck⟩
    simp [faults, Expr.ty, hl, hr, hjudge, Except.map]
  | @assign loc target e σ τ hx _ hstores ih =>
    obtain ⟨hfaults, rfl⟩ := ih
    have hvalue := ty_ne_error hreal hfaults
    have hjudge : ∃ w, judgeAssignment target (Γ.find? target.name) (e.ty Γ) = .ok (τ, w) := by
      generalize e.ty Γ = value at hstores hvalue
      cases hstores with
      | same => exact ⟨_, judgeAssignment_eq_ok.mpr ⟨hx, hvalue, .inl ⟨rfl, rfl⟩⟩⟩
      | widened => exact ⟨_, judgeAssignment_eq_ok.mpr ⟨hx, hvalue, .inr ⟨rfl, rfl, rfl⟩⟩⟩
    obtain ⟨w, hjudge⟩ := hjudge
    simp [faults, Expr.ty, hfaults, hjudge, Except.map]
  | @ternary loc c t f ρ σ τ _ _ _ hmerges ihc iht ihf =>
    obtain ⟨hc, hbool⟩ := ihc
    obtain ⟨ht, htrue⟩ := iht
    obtain ⟨hf, hfalse⟩ := ihf
    have hρ : ρ ≠ .error := htrue ▸ ty_ne_error hreal ht
    have hσ : σ ≠ .error := hfalse ▸ ty_ne_error hreal hf
    have hjudge : judgeBranches loc .bool ρ σ = .ok τ := by
      refine judgeBranches_eq_ok.mpr ⟨rfl, hρ, hσ, ?_⟩
      cases hmerges with
      | same => exact .inl ⟨rfl, rfl⟩
      | intFloat => exact .inr ⟨by decide, rfl, rfl, rfl⟩
      | floatInt => exact .inr ⟨by decide, rfl, rfl, rfl⟩
    have hcond : Cairn.conditionFaults c.loc .bool = [] := if_neg (by simp)
    simp [faults, Expr.ty, hc, hbool, ht, htrue, hf, hfalse, hcond, hjudge]

/-- An expression without faults has, by the rules, the type that the checker
gives it. -/
theorem hasType_of_clean (hreal : Γ.Real) {e : Expr Literal} (h : e.faults Γ = []) :
    e.HasType Γ.find? (e.ty Γ) := by
  induction e with
  | literal loc value =>
    cases value
    · exact .int
    · exact .float
    · exact .bool
    · exact .str
  | name loc x => exact .name (find?_of_ty (ty_ne_error hreal h))
  | group loc inner ih => exact .group (ih h)
  | unary loc op operand ih =>
    have hjudge := judge_of_unary (ty_ne_error hreal h)
    rw [faults, List.append_eq_nil_iff] at h
    exact .unary (ih h.1) (UnaryOp.check_eq_ok.mp (UnaryOp.judge_eq_ok.mp hjudge))
  | binary loc op left right ihl ihr =>
    obtain ⟨w, hjudge⟩ := judge_of_binary (ty_ne_error hreal h)
    rw [faults, List.append_eq_nil_iff, List.append_eq_nil_iff] at h
    obtain ⟨-, -, hcheck⟩ := BinaryOp.judge_eq_ok.mp hjudge
    exact .binary (ihl h.1.1) (ihr h.1.2) (BinaryOp.accepts_of_check hcheck)
  | assign loc target value ih =>
    obtain ⟨w, hjudge⟩ := judge_of_assign (ty_ne_error hreal h)
    rw [faults, List.append_eq_nil_iff] at h
    obtain ⟨hx, -, ⟨hsame, -⟩ | ⟨htarget, hvalue, -⟩⟩ := judgeAssignment_eq_ok.mp hjudge
    · exact .assign hx (ih h.1) (hsame ▸ .same)
    · exact .assign hx (ih h.1) (htarget ▸ hvalue ▸ .widened)
  | ternary loc cond onTrue onFalse ihc iht ihf =>
    have hjudge := judge_of_ternary (ty_ne_error hreal h)
    simp only [faults, List.append_eq_nil_iff] at h
    obtain ⟨⟨⟨⟨hc, -⟩, ht⟩, hf⟩, -⟩ := h
    obtain ⟨hbool, -, -, hbranches⟩ := judgeBranches_eq_ok.mp hjudge
    refine .ternary (hbool ▸ ihc hc) (iht ht) (ihf hf) ?_
    generalize (Expr.ternary loc cond onTrue onFalse).ty Γ = result at hbranches
    generalize onTrue.ty Γ = ρ at hbranches
    generalize onFalse.ty Γ = σ at hbranches
    rcases hbranches with ⟨rfl, rfl⟩ | ⟨hne, hρ, hσ, rfl⟩
    · exact .same
    · rcases Ty.number_iff.mpr hρ with rfl | rfl <;> rcases Ty.number_iff.mpr hσ with rfl | rfl
      · exact absurd rfl hne
      · exact .intFloat
      · exact .floatInt
      · exact absurd rfl hne

/-- **The rules and the checker agree on expressions.** -/
theorem hasType_iff (hreal : Γ.Real) {e : Expr Literal} :
    e.HasType Γ.find? τ ↔ e.faults Γ = [] ∧ e.ty Γ = τ :=
  ⟨HasType.clean hreal, fun h => h.2 ▸ hasType_of_clean hreal h.1⟩

/-- A condition follows the rules if it has no faults as a condition. -/
theorem condition_iff (hreal : Γ.Real) {cond : Expr Literal} :
    cond.HasType Γ.find? .bool ↔ cond.conditionFaults Γ = [] := by
  rw [hasType_iff hreal, conditionFaults, List.append_eq_nil_iff]
  exact and_congr_right fun h => (conditionFaults_eq_nil (ty_ne_error hreal h)).symm

end Expr

-- ---------------------------------------------------------------------------
-- Statements
-- ---------------------------------------------------------------------------

theorem Symbols.find?_with_of_new {Γ : Symbols} {x : String} (hx : Γ.find? x = none) (τ : Ty) :
    (Γ.with x τ).find? = Scope.with Γ.find? x τ := by
  funext y
  rw [with_of_new hx, Bindings.find?_insert, Scope.with]

theorem declares_iff {Γ : Symbols} {Δ : Scope} {τ : Ty} {names : List Ident} :
    Declares τ Γ.find? names Δ ↔
      declareFaults τ Γ names = [] ∧ Δ = (declareAll τ Γ names).find? := by
  induction names generalizing Γ with
  | nil =>
    refine ⟨?_, ?_⟩
    · rintro ⟨⟩
      exact ⟨rfl, rfl⟩
    · rintro ⟨-, rfl⟩
      exact .nil
  | cons x rest ih =>
    cases hx : Γ.find? x.name with
    | some old =>
      refine ⟨?_, fun h => by simp [declareFaults, hx] at h⟩
      rintro (_ | ⟨hnew, -⟩)
      rw [hx] at hnew
      cases hnew
    | none =>
      have hscope := Symbols.find?_with_of_new hx τ
      simp only [declareFaults, hx, List.nil_append, declareAll, ← ih, hscope]
      refine ⟨?_, .cons hx⟩
      rintro (_ | ⟨-, hrest⟩)
      exact hrest

theorem readFaults_eq_nil {Γ : Symbols} (hreal : Γ.Real) {x : Ident} :
    readFaults Γ x = [] ↔ ∃ τ, Γ.find? x.name = some τ := by
  cases hx : Γ.find? x.name with
  | none => simp [readFaults, readTag?, hx]
  | some τ =>
    have hτ := hreal _ _ hx
    cases τ <;> simp_all [readFaults, readTag?, Ty.tag?]

namespace Stmt

/-- A statement that follows the rules has no faults, and the rules lead to the
scope that the table of the checker stands for. -/
theorem Derivable.clean {s : Stmt Literal} (hs : s.DeclaresReal) {Γ : Symbols} (hreal : Γ.Real)
    {Δ : Scope} (h : Derivable Γ.find? s Δ) :
    s.faultsFrom Γ = [] ∧ Δ = (s.symbolsAfter Γ).find? := by
  induction s using Stmt.induction generalizing Γ Δ with
  | empty loc =>
    cases h
    exact ⟨rfl, rfl⟩
  | declaration loc ty names =>
    cases h with
    | declaration hnames => exact declares_iff.mp hnames
  | expression loc e =>
    cases h with
    | expression he => exact ⟨(he.clean hreal).1, rfl⟩
  | read loc names =>
    cases h with
    | read hnames =>
      refine ⟨List.flatMap_eq_nil_iff.mpr fun x hx => ?_, rfl⟩
      exact (readFaults_eq_nil hreal).mpr (hnames x hx)
  | write loc exprs =>
    cases h with
    | write hexprs =>
      refine ⟨List.flatMap_eq_nil_iff.mpr fun e he => ?_, rfl⟩
      obtain ⟨τ, hτ⟩ := hexprs e he
      exact (hτ.clean hreal).1
  | blockNil loc =>
    cases h
    exact ⟨rfl, rfl⟩
  | blockCons loc s rest ihs ihrest =>
    cases h with
    | blockCons hfirst hrest =>
      obtain ⟨hfaults, rfl⟩ := ihs hs.1 hreal hfirst
      obtain ⟨hfaults', rfl⟩ := ihrest hs.2 (real_symbolsAfter hs.1 hreal) hrest
      exact ⟨List.append_eq_nil_iff.mpr ⟨hfaults, hfaults'⟩, rfl⟩
  | ifThen loc cond onTrue ih =>
    cases h with
    | ifThen hcond htrue =>
      obtain ⟨hfaults, rfl⟩ := ih hs.2 hreal htrue
      exact ⟨List.append_eq_nil_iff.mpr ⟨(Expr.condition_iff hreal).mp hcond, hfaults⟩, rfl⟩
  | ifElse loc cond onTrue onFalse iht ihf =>
    cases h with
    | ifElse hcond htrue hfalse =>
      obtain ⟨hfaults, rfl⟩ := iht hs.2.1 hreal htrue
      obtain ⟨hfaults', rfl⟩ := ihf hs.2.2 (real_symbolsAfter hs.2.1 hreal) hfalse
      have hcond := (Expr.condition_iff hreal).mp hcond
      exact ⟨List.append_eq_nil_iff.mpr
        ⟨List.append_eq_nil_iff.mpr ⟨hcond, hfaults⟩, hfaults'⟩, rfl⟩
  | whileDo loc cond body ih =>
    cases h with
    | whileDo hcond hbody =>
      obtain ⟨hfaults, rfl⟩ := ih hs.2 hreal hbody
      exact ⟨List.append_eq_nil_iff.mpr ⟨(Expr.condition_iff hreal).mp hcond, hfaults⟩, rfl⟩
  | doWhile loc body cond ih =>
    cases h with
    | doWhile hbody hcond =>
      obtain ⟨hfaults, rfl⟩ := ih hs.2 hreal hbody
      have hafter := real_symbolsAfter hs.2 hreal
      exact ⟨List.append_eq_nil_iff.mpr ⟨hfaults, (Expr.condition_iff hafter).mp hcond⟩, rfl⟩

/-- A statement without faults follows the rules. -/
theorem derivable_of_clean {s : Stmt Literal} (hs : s.DeclaresReal) {Γ : Symbols}
    (hreal : Γ.Real) (h : s.faultsFrom Γ = []) :
    Derivable Γ.find? s (s.symbolsAfter Γ).find? := by
  induction s using Stmt.induction generalizing Γ with
  | empty loc => exact .empty
  | declaration loc ty names => exact .declaration (declares_iff.mpr ⟨h, rfl⟩)
  | expression loc e => exact .expression (Expr.hasType_of_clean hreal h)
  | read loc names =>
    exact .read fun x hx => (readFaults_eq_nil hreal).mp (List.flatMap_eq_nil_iff.mp h x hx)
  | write loc exprs =>
    exact .write fun e he => ⟨_, Expr.hasType_of_clean hreal (List.flatMap_eq_nil_iff.mp h e he)⟩
  | blockNil loc => exact .blockNil
  | blockCons loc s rest ihs ihrest =>
    have hparts := List.append_eq_nil_iff.mp h
    exact .blockCons (ihs hs.1 hreal hparts.1)
      (ihrest hs.2 (real_symbolsAfter hs.1 hreal) hparts.2)
  | ifThen loc cond onTrue ih =>
    have hparts := List.append_eq_nil_iff.mp h
    exact .ifThen ((Expr.condition_iff hreal).mpr hparts.1) (ih hs.2 hreal hparts.2)
  | ifElse loc cond onTrue onFalse iht ihf =>
    have hparts := List.append_eq_nil_iff.mp h
    have hfirst := List.append_eq_nil_iff.mp hparts.1
    exact .ifElse ((Expr.condition_iff hreal).mpr hfirst.1) (iht hs.2.1 hreal hfirst.2)
      (ihf hs.2.2 (real_symbolsAfter hs.2.1 hreal) hparts.2)
  | whileDo loc cond body ih =>
    have hparts := List.append_eq_nil_iff.mp h
    exact .whileDo ((Expr.condition_iff hreal).mpr hparts.1) (ih hs.2 hreal hparts.2)
  | doWhile loc body cond ih =>
    have hparts := List.append_eq_nil_iff.mp h
    have hafter := real_symbolsAfter hs.2 hreal
    exact .doWhile (ih hs.2 hreal hparts.1) ((Expr.condition_iff hafter).mpr hparts.2)

end Stmt

-- ---------------------------------------------------------------------------
-- The table of names
-- ---------------------------------------------------------------------------

theorem Bindings.update_of_new {α : Type} {x : String} {a : α} {entries : List (String × α)}
    (h : lookup x entries = none) : update x a entries = entries ++ [(x, a)] := by
  induction entries with
  | nil => rfl
  | cons entry rest ih =>
    obtain ⟨y, b⟩ := entry
    by_cases hy : y = x
    · simp [lookup, hy] at h
    · have hrest : lookup x rest = none := by simpa [lookup, hy] using h
      simp [update, hy, ih hrest]

theorem Bindings.lookup_eq_none_iff {α : Type} {x : String} {entries : List (String × α)} :
    lookup x entries = none ↔ x ∉ entries.map Prod.fst := by
  induction entries with
  | nil => simp [lookup]
  | cons entry rest ih =>
    obtain ⟨y, b⟩ := entry
    by_cases hy : y = x
    · simp [lookup, hy]
    · have hx : ¬ x = y := fun h => hy h.symm
      simp [lookup, hy, hx, ih]

/-- The names of the table are all different. -/
def Symbols.Distinct (Γ : Symbols) : Prop :=
  (Γ.entries.map Prod.fst).Nodup

theorem entries_declareAll {Γ : Symbols} (hΓ : Γ.Distinct) {τ : Ty} {names : List Ident}
    (h : declareFaults τ Γ names = []) :
    (declareAll τ Γ names).Distinct ∧
      (declareAll τ Γ names).entries = Γ.entries ++ names.map fun x => (x.name, τ) := by
  induction names generalizing Γ with
  | nil => exact ⟨hΓ, (List.append_nil _).symm⟩
  | cons x rest ih =>
    cases hx : Γ.find? x.name with
    | some old => simp [declareFaults, hx] at h
    | none =>
      have hentries : (Γ.with x.name τ).entries = Γ.entries ++ [(x.name, τ)] := by
        rw [Symbols.with_of_new hx]
        exact Bindings.update_of_new hx
      have hdistinct : (Γ.with x.name τ).Distinct := by
        rw [Symbols.Distinct, hentries, List.map_append, List.nodup_append]
        refine ⟨hΓ, List.nodup_cons.mpr ⟨List.not_mem_nil, List.nodup_nil⟩, ?_⟩
        rintro y hy z hz rfl
        rw [List.mem_singleton.mp hz] at hy
        exact Bindings.lookup_eq_none_iff.mp hx hy
      simp only [declareFaults, hx, List.nil_append] at h
      obtain ⟨hrest, hall⟩ := ih hdistinct h
      refine ⟨hrest, ?_⟩
      rw [declareAll, hall, hentries, List.append_assoc]
      rfl

/-- Behind a statement without faults, its declarations stand behind the names
that were there. -/
theorem Stmt.entries_symbolsAfter {s : Stmt Literal} {Γ : Symbols} (hΓ : Γ.Distinct)
    (h : s.faultsFrom Γ = []) :
    (s.symbolsAfter Γ).Distinct ∧ (s.symbolsAfter Γ).entries = Γ.entries ++ s.declarations := by
  induction s using Stmt.induction generalizing Γ with
  | declaration loc ty names => exact entries_declareAll hΓ h
  | blockCons loc s rest ihs ihrest =>
    have hparts := List.append_eq_nil_iff.mp h
    obtain ⟨hs, hentries⟩ := ihs hΓ hparts.1
    obtain ⟨hrest, hall⟩ := ihrest hs hparts.2
    refine ⟨hrest, hall.trans ?_⟩
    rw [hentries, List.append_assoc]
    rfl
  | ifThen loc cond onTrue ih => exact ih hΓ (List.append_eq_nil_iff.mp h).2
  | ifElse loc cond onTrue onFalse iht ihf =>
    have hparts := List.append_eq_nil_iff.mp h
    obtain ⟨htrue, hentries⟩ := iht hΓ (List.append_eq_nil_iff.mp hparts.1).2
    obtain ⟨hfalse, hall⟩ := ihf htrue hparts.2
    refine ⟨hfalse, hall.trans ?_⟩
    rw [hentries, List.append_assoc]
    rfl
  | whileDo loc cond body ih => exact ih hΓ (List.append_eq_nil_iff.mp h).2
  | doWhile loc body cond ih => exact ih hΓ (List.append_eq_nil_iff.mp h).1
  | _ => exact ⟨hΓ, (List.append_nil _).symm⟩

-- ---------------------------------------------------------------------------
-- Programs
-- ---------------------------------------------------------------------------

theorem Expr.compile_result (e : Expr Literal) (s : Emitter) :
    (e.compile s).1 = e.ty s.symbols ∧
      (e.compile s).2.diagnostics = s.diagnostics ++ e.faults s.symbols := by
  rw [e.compile_apply]
  exact ⟨rfl, rfl⟩

theorem Program.derivable_iff {program : Program} (h : program.asBlock.DeclaresReal) :
    program.Derivable ↔ program.asBlock.faultsFrom .empty = [] := by
  refine ⟨?_, fun hclean => ⟨_, Stmt.derivable_of_clean h Symbols.real_empty hclean⟩⟩
  rintro ⟨Δ, hΔ⟩
  exact (Stmt.Derivable.clean h Symbols.real_empty hΔ).1

/-- **The checker is sound and complete.** A program whose declarations are of
types of values compiles without diagnostics exactly if it follows the rules.
The table of names is then its declarations, in their order and each once.
Whenever the compiler gets to an expression, whatever it has done before, the
expression has a type by the rules exactly if nothing is reported about it, and
the compiler returns that type. -/
theorem Program.clean_iff_derivable {program : Program} (h : program.asBlock.DeclaresReal) :
    (program.compile.diagnostics = [] ↔ program.Derivable) ∧
    (program.Derivable →
      program.compile.symbols.entries = program.asBlock.declarations ∧
        (program.asBlock.declarations.map Prod.fst).Nodup) ∧
    ∀ (e : Expr Literal) (s : Emitter), s.symbols.Real → ∀ τ,
      e.HasType s.symbols.find? τ ↔
        (e.compile s).1 = τ ∧ (e.compile s).2.diagnostics = s.diagnostics := by
  refine ⟨?_, fun hderivable => ?_, fun e s hreal τ => ?_⟩
  · rw [derivable_iff h, compile_eq]
    rfl
  · have hempty : Symbols.Distinct .empty := List.nodup_nil
    obtain ⟨hdistinct, hentries⟩ :=
      Stmt.entries_symbolsAfter hempty ((derivable_iff h).mp hderivable)
    have htable : program.compile.symbols = program.asBlock.symbolsAfter .empty := by
      rw [compile_eq]
      rfl
    rw [htable, hentries]
    rw [Symbols.Distinct, hentries] at hdistinct
    exact ⟨rfl, hdistinct⟩
  · obtain ⟨hty, hdiagnostics⟩ := e.compile_result s
    rw [Expr.hasType_iff hreal, hty, hdiagnostics, List.append_right_eq_self, and_comm]

/-- A name is declared in a branch and another one in a loop. Both are used behind
it, where an int meets a float in an assignment, a comparison and a choice. -/
def scattered : Program :=
  let loc : Location := .between { } { }
  let x : Expr Literal := .name loc "x"
  let y : Expr Literal := .name loc "y"
  [.ifThen loc (.literal loc (.bool false)) (.declaration loc .int [⟨"x", loc⟩]),
    .doWhile loc
      (.block loc
        [.declaration loc .float [⟨"y", loc⟩], .expression loc (.assign loc ⟨"y", loc⟩ x)])
      (.binary loc .lt y x),
    .write loc [.ternary loc (.binary loc .ne x y) x y]]

/-- The product of the two names. -/
def scatteredProduct : Expr Literal :=
  let loc : Location := .between { } { }
  .binary loc .mul (.name loc "x") (.name loc "y")

theorem Program.clean_iff_derivable_scattered :
    scattered.asBlock.DeclaresReal ∧ scattered.Derivable ∧
      scattered.compile.symbols.entries = [("x", .int), ("y", .float)] ∧
      scatteredProduct.HasType scattered.compile.symbols.find? .float := by
  have hreal : scattered.asBlock.DeclaresReal := by
    simp [scattered, Program.asBlock, Stmt.DeclaresReal, Stmt.All, Stmt.AllOf]
  have htableReal : scattered.compile.symbols.Real := by
    rw [Program.compile_eq]
    exact Stmt.real_symbolsAfter hreal Symbols.real_empty
  obtain ⟨hiff, htable, hexpr⟩ := Program.clean_iff_derivable hreal
  have hderivable : scattered.Derivable := hiff.mp (by decide +kernel)
  refine ⟨hreal, hderivable, (htable hderivable).1, ?_⟩
  exact (hexpr scatteredProduct scattered.compile htableReal .float).mpr
    ⟨by decide +kernel, by decide +kernel⟩

end Cairn
