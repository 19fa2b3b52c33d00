import Cairn.Proofs.Names
import Cairn.Proofs.Order
import Mathlib.Data.List.Basic

/-!
# Cairn — one mistake is reported once

An expression in which something was reported has the type `Ty.error`, and whatever
consumes a value of that type says nothing more: operators, assignments, choices and
the conditions of statements. So what is reported about a program with one bad
expression in it is what is reported about that expression, however deep it lies.

That it lies somewhere is said with *contexts*: an expression or a statement with a
hole. To ask whether the context itself is in order, a variable is put into the hole.
The variable may be one that is declared in front of the hole, or one that is declared
for the occasion; all that matters is that the other names mean what they mean without
it.

## Main definitions

* `Expr.Context`, `Stmt.Context` — expressions and statements with a hole.
* `Stmt.Context.symbolsAt`       — the table in front of the hole.

## Main statements

* `Expr.ty_eq_error_iff` — the mark of an error goes with a report.
* `Expr.Context.faults_plug`, `Stmt.Context.faultsFrom_plug` — contexts add nothing.
* `Emitter.errors_poison` — the same of what the compiler reports.
-/

namespace Cairn

-- ---------------------------------------------------------------------------
-- Contexts
-- ---------------------------------------------------------------------------

/-- An expression with a hole. -/
inductive Expr.Context where
  | hole
  | group (loc : Location) (inner : Context)
  | unary (loc : Location) (op : UnaryOp) (operand : Context)
  | binaryLeft (loc : Location) (op : BinaryOp) (left : Context) (right : Expr Literal)
  | binaryRight (loc : Location) (op : BinaryOp) (left : Expr Literal) (right : Context)
  | assign (loc : Location) (target : Ident) (value : Context)
  | ternaryCond (loc : Location) (cond : Context) (onTrue onFalse : Expr Literal)
  | ternaryTrue (loc : Location) (cond : Expr Literal) (onTrue : Context) (onFalse : Expr Literal)
  | ternaryFalse (loc : Location) (cond onTrue : Expr Literal) (onFalse : Context)

/-- The expression with the hole filled. -/
def Expr.Context.plug (e : Expr Literal) : Expr.Context → Expr Literal
  | .hole => e
  | .group loc inner => .group loc (inner.plug e)
  | .unary loc op operand => .unary loc op (operand.plug e)
  | .binaryLeft loc op left right => .binary loc op (left.plug e) right
  | .binaryRight loc op left right => .binary loc op left (right.plug e)
  | .assign loc target value => .assign loc target (value.plug e)
  | .ternaryCond loc cond onTrue onFalse => .ternary loc (cond.plug e) onTrue onFalse
  | .ternaryTrue loc cond onTrue onFalse => .ternary loc cond (onTrue.plug e) onFalse
  | .ternaryFalse loc cond onTrue onFalse => .ternary loc cond onTrue (onFalse.plug e)

/-- A statement with a hole in one of its expressions. -/
inductive Stmt.Context where
  | expression (loc : Location) (expr : Expr.Context)
  | write (loc : Location) (before : List (Expr Literal)) (expr : Expr.Context)
    (behind : List (Expr Literal))
  | block (loc : Location) (before : List (Stmt Literal)) (stmt : Context)
    (behind : List (Stmt Literal))
  | ifThenCond (loc : Location) (cond : Expr.Context) (onTrue : Stmt Literal)
  | ifThen (loc : Location) (cond : Expr Literal) (onTrue : Context)
  | ifElseCond (loc : Location) (cond : Expr.Context) (onTrue onFalse : Stmt Literal)
  | ifElseTrue (loc : Location) (cond : Expr Literal) (onTrue : Context) (onFalse : Stmt Literal)
  | ifElseFalse (loc : Location) (cond : Expr Literal) (onTrue : Stmt Literal) (onFalse : Context)
  | whileCond (loc : Location) (cond : Expr.Context) (body : Stmt Literal)
  | whileDo (loc : Location) (cond : Expr Literal) (body : Context)
  | doWhile (loc : Location) (body : Context) (cond : Expr Literal)
  | doWhileCond (loc : Location) (body : Stmt Literal) (cond : Expr.Context)

namespace Stmt.Context

/-- The statement with the hole filled. -/
def plug (e : Expr Literal) : Stmt.Context → Stmt Literal
  | .expression loc expr => .expression loc (expr.plug e)
  | .write loc before expr behind => .write loc (before ++ expr.plug e :: behind)
  | .block loc before stmt behind => .block loc (before ++ stmt.plug e :: behind)
  | .ifThenCond loc cond onTrue => .ifThen loc (cond.plug e) onTrue
  | .ifThen loc cond onTrue => .ifThen loc cond (onTrue.plug e)
  | .ifElseCond loc cond onTrue onFalse => .ifElse loc (cond.plug e) onTrue onFalse
  | .ifElseTrue loc cond onTrue onFalse => .ifElse loc cond (onTrue.plug e) onFalse
  | .ifElseFalse loc cond onTrue onFalse => .ifElse loc cond onTrue (onFalse.plug e)
  | .whileCond loc cond body => .whileDo loc (cond.plug e) body
  | .whileDo loc cond body => .whileDo loc cond (body.plug e)
  | .doWhile loc body cond => .doWhile loc (body.plug e) cond
  | .doWhileCond loc body cond => .doWhile loc body (cond.plug e)

/-- The table in front of the hole, if `Γ` is the table in front of the statement. -/
def symbolsAt (Γ : Symbols) : Stmt.Context → Symbols
  | .block _ before stmt _ => stmt.symbolsAt (Stmt.symbolsAfterAll Γ before)
  | .ifThen _ _ onTrue => onTrue.symbolsAt Γ
  | .ifElseTrue _ _ onTrue _ => onTrue.symbolsAt Γ
  | .ifElseFalse _ _ onTrue onFalse => onFalse.symbolsAt (onTrue.symbolsAfter Γ)
  | .whileDo _ _ body => body.symbolsAt Γ
  | .doWhile _ body _ => body.symbolsAt Γ
  | .doWhileCond _ body _ => body.symbolsAfter Γ
  | _ => Γ

end Stmt.Context

section

variable (N : String → Prop)

/-- Every name in the expression satisfies `N`. -/
def Expr.Names (e : Expr Literal) : Prop :=
  e.Uses N fun _ => True

/-- Every name in the statement satisfies `N`. -/
def Stmt.Names (s : Stmt Literal) : Prop :=
  s.Uses N fun _ => True

/-- Something to fill a hole with that has no names. -/
def filling : Expr Literal :=
  .literal (.between { } { }) (.bool true)

/-- Every name around the hole satisfies `N`. -/
def Expr.Context.Names (c : Expr.Context) : Prop :=
  (c.plug filling).Names N

/-- Every name around the hole satisfies `N`. -/
def Stmt.Context.Names (c : Stmt.Context) : Prop :=
  (c.plug filling).Names N

end

-- ---------------------------------------------------------------------------
-- Tables that agree
-- ---------------------------------------------------------------------------

/-- The two tables say the same about every name in `N`. -/
def Symbols.AgreeOn (N : String → Prop) (Γ Δ : Symbols) : Prop :=
  ∀ x, N x → Γ.find? x = Δ.find? x

section

variable {N : String → Prop} {Γ Δ : Symbols}

theorem Expr.ty_faults_congr (h : Γ.AgreeOn N Δ) {e : Expr Literal} (he : e.Names N) :
    e.ty Γ = e.ty Δ ∧ e.faults Γ = e.faults Δ := by
  induction e with
  | literal loc value => exact ⟨rfl, rfl⟩
  | name loc x => simp only [ty, faults, h x he, and_self]
  | group loc inner ih => exact ih he
  | unary loc op operand ih =>
    obtain ⟨hty, hfaults⟩ := ih he
    simp only [ty, faults, hty, hfaults, and_self]
  | binary loc op left right ihl ihr =>
    obtain ⟨htyl, hfaultsl⟩ := ihl he.1
    obtain ⟨htyr, hfaultsr⟩ := ihr he.2
    simp only [ty, faults, htyl, htyr, hfaultsl, hfaultsr, and_self]
  | assign loc target value ih =>
    obtain ⟨hty, hfaults⟩ := ih he.2
    simp only [ty, faults, h target.name he.1, hty, hfaults, and_self]
  | ternary loc cond onTrue onFalse ihc iht ihf =>
    obtain ⟨htyc, hfaultsc⟩ := ihc he.1
    obtain ⟨htyt, hfaultst⟩ := iht he.2.1
    obtain ⟨htyf, hfaultsf⟩ := ihf he.2.2
    simp only [ty, faults, htyc, htyt, htyf, hfaultsc, hfaultst, hfaultsf, and_self]

theorem Symbols.AgreeOn.with (h : Γ.AgreeOn N Δ) {x : String} (hx : N x) (ty : Ty) :
    (Γ.with x ty).AgreeOn N (Δ.with x ty) := by
  intro y hy
  have heq := h x hx
  cases hfound : Γ.find? x with
  | some old =>
    rw [with_of_known hfound, with_of_known (heq.symm.trans hfound)]
    exact h y hy
  | none =>
    rw [with_of_new hfound, with_of_new (heq.symm.trans hfound), Bindings.find?_insert,
      Bindings.find?_insert, h y hy]

theorem declareAll_congr (ty : Ty) {names : List Ident} (hnames : ∀ x ∈ names, N x.name)
    {Γ Δ : Symbols} (h : Γ.AgreeOn N Δ) :
    (declareAll ty Γ names).AgreeOn N (declareAll ty Δ names) ∧
      declareFaults ty Γ names = declareFaults ty Δ names := by
  induction names generalizing Γ Δ with
  | nil => exact ⟨h, rfl⟩
  | cons x rest ih =>
    obtain ⟨hx, hrest⟩ := List.forall_mem_cons.mp hnames
    obtain ⟨hagree, hfaults⟩ := ih hrest (h.with hx ty)
    refine ⟨hagree, ?_⟩
    simp only [declareFaults, h x.name hx, hfaults]

theorem Expr.conditionFaults_congr (h : Γ.AgreeOn N Δ) {cond : Expr Literal}
    (hcond : cond.Names N) : cond.conditionFaults Γ = cond.conditionFaults Δ := by
  obtain ⟨hty, hfaults⟩ := ty_faults_congr h hcond
  rw [conditionFaults, conditionFaults, hty, hfaults]

/-- Tables that agree on the names of a statement give it the same faults, and agree
behind it. -/
theorem Stmt.faultsFrom_congr {s : Stmt Literal} (hs : s.Names N) {Γ Δ : Symbols}
    (h : Γ.AgreeOn N Δ) :
    (s.symbolsAfter Γ).AgreeOn N (s.symbolsAfter Δ) ∧ s.faultsFrom Γ = s.faultsFrom Δ := by
  induction s using Stmt.induction generalizing Γ Δ with
  | empty loc => exact ⟨h, rfl⟩
  | declaration loc ty names => exact declareAll_congr ty hs h
  | expression loc e => exact ⟨h, (Expr.ty_faults_congr h hs).2⟩
  | read loc names =>
    refine ⟨h, List.flatMap_congr fun x hx => ?_⟩
    rw [readFaults, readFaults, readTag?, readTag?, h x.name (hs x hx)]
  | write loc exprs =>
    exact ⟨h, List.flatMap_congr fun e he => (Expr.ty_faults_congr h (hs e he)).2⟩
  | blockNil loc => exact ⟨h, rfl⟩
  | blockCons loc s rest ihs ihrest =>
    obtain ⟨hagree, hfaults⟩ := ihs hs.1 h
    obtain ⟨hbehind, hrest⟩ := ihrest hs.2 hagree
    refine ⟨hbehind, ?_⟩
    show s.faultsFrom Γ ++ _ = s.faultsFrom Δ ++ _
    rw [hfaults]
    exact congrArg _ hrest
  | ifThen loc cond onTrue ih =>
    obtain ⟨hagree, hfaults⟩ := ih hs.2 h
    exact ⟨hagree, by rw [faultsFrom, faultsFrom, hfaults, Expr.conditionFaults_congr h hs.1]⟩
  | ifElse loc cond onTrue onFalse iht ihf =>
    obtain ⟨hagreet, hfaultst⟩ := iht hs.2.1 h
    obtain ⟨hagreef, hfaultsf⟩ := ihf hs.2.2 hagreet
    refine ⟨hagreef, ?_⟩
    rw [faultsFrom, faultsFrom, hfaultst, hfaultsf, Expr.conditionFaults_congr h hs.1]
  | whileDo loc cond body ih =>
    obtain ⟨hagree, hfaults⟩ := ih hs.2 h
    exact ⟨hagree, by rw [faultsFrom, faultsFrom, hfaults, Expr.conditionFaults_congr h hs.1]⟩
  | doWhile loc body cond ih =>
    obtain ⟨hagree, hfaults⟩ := ih hs.2 h
    refine ⟨hagree, ?_⟩
    rw [faultsFrom, faultsFrom, hfaults, Expr.conditionFaults_congr hagree hs.1]

theorem Stmt.faultsFromAll_congr {body : List (Stmt Literal)}
    (hbody : Stmt.AllOf (Stmt.UsesItself N fun _ => True) body) {Γ Δ : Symbols}
    (h : Γ.AgreeOn N Δ) :
    (symbolsAfterAll Γ body).AgreeOn N (symbolsAfterAll Δ body) ∧
      faultsFromAll Γ body = faultsFromAll Δ body :=
  faultsFrom_congr (s := .block (.between { } { }) body) hbody h

end

-- ---------------------------------------------------------------------------
-- Expressions
-- ---------------------------------------------------------------------------

/-- **The mark of an error goes with a report**: an expression has it just in case
something is reported about the expression. -/
theorem Expr.ty_eq_error_iff {Γ : Symbols} (hreal : Γ.Real) (e : Expr Literal) :
    e.ty Γ = .error ↔ e.faults Γ ≠ [] :=
  ⟨fun hty hfaults => ty_ne_error hreal hfaults hty,
    fun hfaults => Decidable.byContradiction fun hty => hfaults (faults_eq_nil hty)⟩

section

variable {N : String → Prop} {Γ Δ : Symbols} {a e : Expr Literal}

theorem Expr.faults_eq_nil_of_agree (h : Γ.AgreeOn N Δ) {a : Expr Literal} (ha : a.Names N)
    (hclean : a.faults Δ = []) : a.faults Γ = [] := by
  rw [(ty_faults_congr h ha).2, hclean]

theorem faults_flatMap_of_agree (h : Γ.AgreeOn N Δ) {exprs : List (Expr Literal)}
    (hexprs : ∀ a ∈ exprs, a.Names N) (hclean : exprs.flatMap (Expr.faults Δ) = []) :
    exprs.flatMap (Expr.faults Γ) = [] :=
  List.flatMap_eq_nil_iff.mpr fun a ha =>
    Expr.faults_eq_nil_of_agree h (hexprs a ha) (List.flatMap_eq_nil_iff.mp hclean a ha)

theorem Expr.conditionFaults_eq_nil_of_agree (h : Γ.AgreeOn N Δ) {cond : Expr Literal}
    (hcond : cond.Names N) (hclean : cond.conditionFaults Δ = []) :
    cond.conditionFaults Γ = [] := by
  rw [conditionFaults_congr h hcond, hclean]

/-- An assignment to a name that is declared says nothing about a value at fault. -/
theorem judgeAssignment_error {target : Ident} {found : Option Ty} {value : Ty}
    (hclean : (judgeAssignment target found value).faults = []) :
    judgeAssignment target found .error = .error [] := by
  cases found with
  | none => cases hclean
  | some ty => rfl

/-- **A context adds nothing** to what is reported about the expression in its hole, if
the context is in order with a variable there. -/
theorem Expr.Context.faults_plug (h : Γ.AgreeOn N Δ) (he : e.faults Γ ≠ []) {c : Expr.Context}
    (hc : c.Names N) (hclean : (c.plug a).faults Δ = []) :
    (c.plug e).faults Γ = e.faults Γ ∧ (c.plug e).ty Γ = .error := by
  induction c with
  | hole => exact ⟨rfl, Decidable.byContradiction fun hty => he (faults_eq_nil hty)⟩
  | group loc inner ih => exact ih hc hclean
  | unary loc op operand ih =>
    simp only [plug, faults, List.append_eq_nil_iff] at hclean
    obtain ⟨hfaults, hty⟩ := ih hc hclean.1
    simp [plug, faults, ty, hfaults, hty, UnaryOp.judge, Ty.isError]
  | binaryLeft loc op left right ih =>
    simp only [plug, faults, List.append_eq_nil_iff] at hclean
    obtain ⟨hfaults, hty⟩ := ih hc.1 hclean.1.1
    have hright := faults_eq_nil_of_agree h hc.2 hclean.1.2
    simp [plug, faults, ty, hfaults, hty, hright, BinaryOp.judge, Ty.isError, Except.map]
  | binaryRight loc op left right ih =>
    simp only [plug, faults, List.append_eq_nil_iff] at hclean
    obtain ⟨hfaults, hty⟩ := ih hc.2 hclean.1.2
    have hleft := faults_eq_nil_of_agree h hc.1 hclean.1.1
    simp [plug, faults, ty, hfaults, hty, hleft, BinaryOp.judge, Ty.isError, Except.map]
  | assign loc target value ih =>
    simp only [plug, faults, List.append_eq_nil_iff] at hclean
    obtain ⟨hfaults, hty⟩ := ih hc.2 hclean.1
    have hjudge : judgeAssignment target (Γ.find? target.name) .error = .error [] := by
      rw [h target.name hc.1]
      exact judgeAssignment_error hclean.2
    simp [plug, faults, ty, hfaults, hty, hjudge, Except.map]
  | ternaryCond loc cond onTrue onFalse ih =>
    simp only [plug, faults, List.append_eq_nil_iff] at hclean
    obtain ⟨⟨⟨⟨hcond, -⟩, htrue⟩, hfalse⟩, -⟩ := hclean
    obtain ⟨hfaults, hty⟩ := ih hc.1 hcond
    have htrue := faults_eq_nil_of_agree h hc.2.1 htrue
    have hfalse := faults_eq_nil_of_agree h hc.2.2 hfalse
    simp [plug, faults, ty, hfaults, hty, htrue, hfalse, judgeBranches, Cairn.conditionFaults]
  | ternaryTrue loc cond onTrue onFalse ih =>
    simp only [plug, faults, List.append_eq_nil_iff] at hclean
    obtain ⟨⟨⟨hcond, htrue⟩, hfalse⟩, -⟩ := hclean
    obtain ⟨hfaults, hty⟩ := ih hc.2.1 htrue
    have hcond := conditionFaults_eq_nil_of_agree h hc.1 (List.append_eq_nil_iff.mpr hcond)
    have hfalse := faults_eq_nil_of_agree h hc.2.2 hfalse
    simp only [Expr.conditionFaults, List.append_eq_nil_iff] at hcond
    simp [plug, faults, ty, hfaults, hty, hcond, hfalse, judgeBranches, Ty.isError]
  | ternaryFalse loc cond onTrue onFalse ih =>
    simp only [plug, faults, List.append_eq_nil_iff] at hclean
    obtain ⟨⟨⟨hcond, htrue⟩, hfalse⟩, -⟩ := hclean
    obtain ⟨hfaults, hty⟩ := ih hc.2.2 hfalse
    have hcond := conditionFaults_eq_nil_of_agree h hc.1 (List.append_eq_nil_iff.mpr hcond)
    have htrue := faults_eq_nil_of_agree h hc.2.1 htrue
    simp only [Expr.conditionFaults, List.append_eq_nil_iff] at hcond
    simp [plug, faults, ty, hfaults, hty, hcond, htrue, judgeBranches, Ty.isError]

theorem Expr.Context.conditionFaults_plug (h : Γ.AgreeOn N Δ) (he : e.faults Γ ≠ [])
    {c : Expr.Context} (hc : c.Names N)
    (hclean : (c.plug a).conditionFaults Δ = []) :
    (c.plug e).conditionFaults Γ = e.faults Γ := by
  obtain ⟨hfaults, hty⟩ := faults_plug h he hc (List.append_eq_nil_iff.mp hclean).1
  simp [conditionFaults, hfaults, hty, Cairn.conditionFaults]

end

-- ---------------------------------------------------------------------------
-- Statements
-- ---------------------------------------------------------------------------

namespace Stmt

theorem symbolsAfterAll_append (Γ : Symbols) (before behind : List (Stmt Literal)) :
    symbolsAfterAll Γ (before ++ behind) = symbolsAfterAll (symbolsAfterAll Γ before) behind := by
  induction before generalizing Γ with
  | nil => rfl
  | cons s rest ih => exact ih (s.symbolsAfter Γ)

theorem faultsFromAll_append (Γ : Symbols) (before behind : List (Stmt Literal)) :
    faultsFromAll Γ (before ++ behind) =
      faultsFromAll Γ before ++ faultsFromAll (symbolsAfterAll Γ before) behind := by
  induction before generalizing Γ with
  | nil => rfl
  | cons s rest ih =>
    show s.faultsFrom Γ ++ faultsFromAll _ (rest ++ behind) = _
    rw [ih, ← List.append_assoc]
    rfl

theorem allOf_append {L : Type} {P : Stmt L → Prop} {before behind : List (Stmt L)} :
    AllOf P (before ++ behind) ↔ AllOf P before ∧ AllOf P behind := by
  induction before with
  | nil => simp [AllOf]
  | cons s rest ih =>
    show s.All P ∧ AllOf P (rest ++ behind) ↔ (s.All P ∧ AllOf P rest) ∧ AllOf P behind
    rw [ih, and_assoc]

namespace Context

/-- Expressions declare nothing. -/
theorem symbolsAfter_plug (c : Stmt.Context) (e e' : Expr Literal) (Γ : Symbols) :
    (c.plug e).symbolsAfter Γ = (c.plug e').symbolsAfter Γ := by
  induction c generalizing Γ with
  | block loc before stmt behind ih =>
    show symbolsAfterAll Γ (before ++ stmt.plug e :: behind) =
      symbolsAfterAll Γ (before ++ stmt.plug e' :: behind)
    rw [symbolsAfterAll_append, symbolsAfterAll_append]
    exact congrArg (symbolsAfterAll · behind) (ih _)
  | ifThen loc cond onTrue ih => exact ih Γ
  | ifElseTrue loc cond onTrue onFalse ih =>
    show onFalse.symbolsAfter _ = onFalse.symbolsAfter _
    rw [ih]
  | ifElseFalse loc cond onTrue onFalse ih => exact ih _
  | whileDo loc cond body ih => exact ih Γ
  | doWhile loc body cond ih => exact ih Γ
  | _ => rfl

variable {N : String → Prop} {a e : Expr Literal}

/-- Tables that agree on the names around the hole agree behind the statement, whatever
the hole is filled with. -/
theorem agreeOn_behind {c : Stmt.Context} (hc : c.Names N) {Γ Δ : Symbols} (h : Γ.AgreeOn N Δ)
    (e e' : Expr Literal) :
    ((c.plug e).symbolsAfter Γ).AgreeOn N ((c.plug e').symbolsAfter Δ) := by
  rw [symbolsAfter_plug c e filling, symbolsAfter_plug c e' filling]
  exact (faultsFrom_congr hc h).1

/-- **A context adds nothing** to what is reported about the expression in its hole. -/
theorem faultsFrom_plug {c : Stmt.Context} (hc : c.Names N) {Γ Δ : Symbols} (h : Γ.AgreeOn N Δ)
    (hclean : (c.plug a).faultsFrom Δ = []) (he : e.faults (c.symbolsAt Γ) ≠ []) :
    (c.plug e).faultsFrom Γ = e.faults (c.symbolsAt Γ) := by
  induction c generalizing Γ Δ with
  | expression loc expr => exact (Expr.Context.faults_plug h he hc hclean).1
  | write loc before expr behind =>
    obtain ⟨hcbefore, hcexpr⟩ := List.forall_mem_append.mp hc
    obtain ⟨hcexpr, hcbehind⟩ := List.forall_mem_cons.mp hcexpr
    simp only [plug, faultsFrom, List.flatMap_append, List.flatMap_cons, List.append_eq_nil_iff]
      at hclean ⊢
    obtain ⟨hbefore, hexpr, hbehind⟩ := hclean
    rw [faults_flatMap_of_agree h hcbefore hbefore, faults_flatMap_of_agree h hcbehind hbehind,
      (Expr.Context.faults_plug h he hcexpr hexpr).1, List.append_nil]
    rfl
  | block loc before stmt behind ih =>
    obtain ⟨hcbefore, hcstmt, hcbehind⟩ := allOf_append.mp hc
    simp only [plug, faultsFrom, faultsFromAll_append, faultsFromAll, List.append_eq_nil_iff]
      at hclean ⊢
    obtain ⟨hbefore, hstmt, hbehind⟩ := hclean
    obtain ⟨hagree, hsame⟩ := faultsFromAll_congr hcbefore h
    obtain ⟨-, hlast⟩ := faultsFromAll_congr hcbehind (agreeOn_behind hcstmt hagree e a)
    rw [hsame, hbefore, ih hcstmt hagree hstmt he, hlast, hbehind, List.append_nil]
    rfl
  | ifThenCond loc cond onTrue =>
    obtain ⟨hcond, htrue⟩ := List.append_eq_nil_iff.mp hclean
    show (cond.plug e).conditionFaults Γ ++ onTrue.faultsFrom Γ = _
    rw [Expr.Context.conditionFaults_plug h he hc.1 hcond, (faultsFrom_congr hc.2 h).2, htrue,
      List.append_nil]
    rfl
  | ifThen loc cond onTrue ih =>
    obtain ⟨hcond, htrue⟩ := List.append_eq_nil_iff.mp hclean
    show cond.conditionFaults Γ ++ (onTrue.plug e).faultsFrom Γ = _
    rw [Expr.conditionFaults_eq_nil_of_agree h hc.1 hcond, ih hc.2 h htrue he]
    rfl
  | ifElseCond loc cond onTrue onFalse =>
    simp only [plug, faultsFrom, List.append_eq_nil_iff] at hclean ⊢
    obtain ⟨⟨hcond, htrue⟩, hfalse⟩ := hclean
    obtain ⟨hagree, hsame⟩ := faultsFrom_congr hc.2.1 h
    rw [Expr.Context.conditionFaults_plug h he hc.1 hcond, hsame, htrue,
      (faultsFrom_congr hc.2.2 hagree).2, hfalse, List.append_nil, List.append_nil]
    rfl
  | ifElseTrue loc cond onTrue onFalse ih =>
    simp only [plug, faultsFrom, List.append_eq_nil_iff] at hclean ⊢
    obtain ⟨⟨hcond, htrue⟩, hfalse⟩ := hclean
    have hagree := agreeOn_behind hc.2.1 h e a
    rw [Expr.conditionFaults_eq_nil_of_agree h hc.1 hcond, ih hc.2.1 h htrue he,
      (faultsFrom_congr hc.2.2 hagree).2, hfalse, List.append_nil]
    rfl
  | ifElseFalse loc cond onTrue onFalse ih =>
    simp only [plug, faultsFrom, List.append_eq_nil_iff] at hclean ⊢
    obtain ⟨⟨hcond, htrue⟩, hfalse⟩ := hclean
    obtain ⟨hagree, hsame⟩ := faultsFrom_congr hc.2.1 h
    rw [Expr.conditionFaults_eq_nil_of_agree h hc.1 hcond, hsame, htrue, ih hc.2.2 hagree hfalse he]
    rfl
  | whileCond loc cond body =>
    obtain ⟨hcond, hbody⟩ := List.append_eq_nil_iff.mp hclean
    show (cond.plug e).conditionFaults Γ ++ body.faultsFrom Γ = _
    rw [Expr.Context.conditionFaults_plug h he hc.1 hcond, (faultsFrom_congr hc.2 h).2, hbody,
      List.append_nil]
    rfl
  | whileDo loc cond body ih =>
    obtain ⟨hcond, hbody⟩ := List.append_eq_nil_iff.mp hclean
    show cond.conditionFaults Γ ++ (body.plug e).faultsFrom Γ = _
    rw [Expr.conditionFaults_eq_nil_of_agree h hc.1 hcond, ih hc.2 h hbody he]
    rfl
  | doWhile loc body cond ih =>
    obtain ⟨hbody, hcond⟩ := List.append_eq_nil_iff.mp hclean
    have hagree := agreeOn_behind hc.2 h e a
    show (body.plug e).faultsFrom Γ ++ cond.conditionFaults _ = _
    rw [ih hc.2 h hbody he, Expr.conditionFaults_eq_nil_of_agree hagree hc.1 hcond, List.append_nil]
    rfl
  | doWhileCond loc body cond =>
    obtain ⟨hbody, hcond⟩ := List.append_eq_nil_iff.mp hclean
    obtain ⟨hagree, hsame⟩ := faultsFrom_congr hc.2 h
    show body.faultsFrom Γ ++ (cond.plug e).conditionFaults _ = _
    rw [hsame, hbody, Expr.Context.conditionFaults_plug hagree he hc.1 hcond]
    rfl

end Context

end Stmt

-- ---------------------------------------------------------------------------
-- What the compiler reports
-- ---------------------------------------------------------------------------

namespace Emitter

/-- In front of the state, the computation reports the diagnostics. -/
def Reports {α : Type} (p : StateM Emitter α) (s : Emitter) (ds : List Diagnostic) : Prop :=
  (p s).2.diagnostics = s.diagnostics ++ ds

instance {α : Type} (p : StateM Emitter α) (s : Emitter) (ds : List Diagnostic) :
    Decidable (Reports p s ds) :=
  inferInstanceAs (Decidable (_ = _))

theorem reports_expr {e : Expr Literal} {s : Emitter} {ds : List Diagnostic} :
    Reports e.compile s ds ↔ e.faults s.symbols = ds := by
  rw [Reports, e.compile_apply]
  exact List.append_right_inj _

theorem reports_stmt {t : Stmt Literal} {s : Emitter} {ds : List Diagnostic} :
    Reports t.compile s ds ↔ t.faultsFrom s.symbols = ds := by
  rw [Reports, t.compile_apply]
  exact List.append_right_inj _

/-- **One mistake is reported once.**

1. Under a table of the types of values, compiling an expression returns the mark of an
   error just in case it reports something.
2. Take an expression with a hole. Suppose that nothing is reported when something is in
   the hole, for instance a variable of the right type, and that every other name means
   the same then as in the state `s`. Put an expression there about which, compiled on
   its own, something is reported. Then the same is reported about the whole.
3. The same holds of a statement with a hole in one of its expressions. On its own the
   expression is compiled behind all that is declared in front of the hole. -/
theorem errors_poison :
    (∀ (e : Expr Literal) (s : Emitter), s.symbols.Real →
      ∃ ds, Reports e.compile s ds ∧ ((e.compile s).1 = .error ↔ ds ≠ [])) ∧
    (∀ (c : Expr.Context) (a e : Expr Literal) (s t u : Emitter) (ds : List Diagnostic),
      c.Names (fun x => s.symbols.find? x = t.symbols.find? x) → Reports (c.plug a).compile t [] →
      u.symbols = s.symbols → Reports e.compile u ds → ds ≠ [] →
      Reports (c.plug e).compile s ds) ∧
    ∀ (c : Stmt.Context) (a e : Expr Literal) (s t u : Emitter) (ds : List Diagnostic),
      c.Names (fun x => s.symbols.find? x = t.symbols.find? x) → Reports (c.plug a).compile t [] →
      u.symbols = c.symbolsAt s.symbols → Reports e.compile u ds → ds ≠ [] →
      Reports (c.plug e).compile s ds := by
  refine ⟨fun e s hreal => ?_, fun c a e s t u ds hc hclean hu he hds => ?_,
    fun c a e s t u ds hc hclean hu he hds => ?_⟩
  · refine ⟨e.faults s.symbols, reports_expr.mpr rfl, ?_⟩
    rw [e.compile_apply]
    exact e.ty_eq_error_iff hreal
  · rw [reports_expr] at hclean he ⊢
    rw [hu] at he
    subst he
    exact (Expr.Context.faults_plug (fun _ hx => hx) hds hc hclean).1
  · rw [reports_stmt] at hclean ⊢
    rw [reports_expr, hu] at he
    subst he
    exact Stmt.Context.faultsFrom_plug hc (fun _ hx => hx) hclean hds

/-- A hole under a unary operator, in the branch of a choice, in a list of values, behind
a declaration in the body of a loop. -/
def deepHole : Stmt.Context :=
  let loc : Location := .between { } { }
  let f : Expr Literal := .name loc "f"
  .block loc
    [.doWhile loc (.block loc [.declaration loc .float [⟨"f", loc⟩]]) (.literal loc (.bool false))]
    (.write loc [f] (.ternaryTrue loc (.binary loc .lt f (.literal loc (.int 1)))
      (.assign loc ⟨"f", loc⟩ (.binaryRight loc .mul f (.unary loc .neg (.group loc .hole)))) f) [])
    [.expression loc (.binary loc .add f f)]

/-- An expression with two mistakes in it. -/
def twoMistakes : Expr Literal :=
  let loc : Location := .between { } { }
  .binary loc .add (.name loc "y") (.binary loc .mul (.name loc "f") (.literal loc (.bool true)))

theorem errors_poison_deepHole :
    let loc : Location := .between { } { }
    let ds : List Diagnostic := [⟨loc, .undeclared "y"⟩, ⟨loc, .unsupportedOperand "*" .bool⟩]
    let t := Emitter.start.withSymbols (Symbols.with .empty "x" .int)
    let u := Emitter.start.withSymbols (deepHole.symbolsAt .empty)
    Reports (deepHole.plug (.name loc "x")).compile t [] ∧ Reports twoMistakes.compile u ds ∧
      Reports (deepHole.plug twoMistakes).compile .start ds := by
  intro loc ds t u
  have hf : Emitter.start.symbols.find? "f" = t.symbols.find? "f" := by decide
  have hnames : deepHole.Names fun x => Emitter.start.symbols.find? x = t.symbols.find? x := by
    simp [deepHole, Stmt.Context.Names, Stmt.Names, Stmt.Uses, Stmt.Context.plug, Stmt.All,
      Stmt.AllOf, Stmt.UsesItself, Expr.Context.plug, Expr.Uses, filling, hf]
  have hclean : Reports (deepHole.plug (.name loc "x")).compile t [] := by decide +kernel
  have hmistakes : Reports twoMistakes.compile u ds := by decide +kernel
  refine ⟨hclean, hmistakes, ?_⟩
  exact errors_poison.2.2 deepHole (.name loc "x") twoMistakes .start t u ds hnames hclean rfl
    hmistakes (by decide)

end Emitter

end Cairn
