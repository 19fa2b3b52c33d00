import Cairn.Proofs.Offsets
import Cairn.Proofs.Typing

/-!
# Cairn — the order of diagnostics

Diagnostics are collected while the tree is walked from left to right, and a
construct is only blamed itself if none of its parts is. So they come in the order
of the text, with one exception: the value of an assignment is compiled before its
target is looked up, and a target that was never declared is reported even if the
value is at fault already. Such a report comes behind those of the value, although
the target stands in front of it.

## Main statements

* `Expr.faults_eq_nil` — an expression with a type is not at fault.
* `Expr.inOrder_faults`, `Stmt.inOrder_faultsFrom` — faults in the order of the text.
* `Program.diagnostics_order` — the order of all diagnostics of a program.
-/

namespace Cairn

-- ---------------------------------------------------------------------------
-- Assignments
-- ---------------------------------------------------------------------------

/-- All assignments within an expression: their targets and values. -/
def Expr.assignments {L : Type} : Expr L → List (Ident × Expr L)
  | .literal _ _ => []
  | .name _ _ => []
  | .group _ inner => inner.assignments
  | .unary _ _ operand => operand.assignments
  | .binary _ _ left right => left.assignments ++ right.assignments
  | .assign _ target value => (target, value) :: value.assignments
  | .ternary _ cond onTrue onFalse =>
    cond.assignments ++ onTrue.assignments ++ onFalse.assignments

mutual

/-- All assignments within a statement. -/
def Stmt.assignments {L : Type} : Stmt L → List (Ident × Expr L)
  | .empty _ => []
  | .declaration _ _ _ => []
  | .expression _ e => e.assignments
  | .read _ _ => []
  | .write _ exprs => exprs.flatMap Expr.assignments
  | .block _ body => assignmentsAll body
  | .ifThen _ cond onTrue => cond.assignments ++ onTrue.assignments
  | .ifElse _ cond onTrue onFalse => cond.assignments ++ onTrue.assignments ++ onFalse.assignments
  | .whileDo _ cond body => cond.assignments ++ body.assignments
  | .doWhile _ body cond => body.assignments ++ cond.assignments

/-- All assignments within statements. -/
def Stmt.assignmentsAll {L : Type} : List (Stmt L) → List (Ident × Expr L)
  | [] => []
  | s :: rest => s.assignments ++ assignmentsAll rest

end

-- ---------------------------------------------------------------------------
-- Faults in order
-- ---------------------------------------------------------------------------

/-- Where the text starts that a diagnostic is about. -/
def Diagnostic.start (d : Diagnostic) : Nat :=
  d.loc.span.start

/-- The second diagnostic is about an undeclared target of one of the assignments,
and the first one about something in the value of the same assignment. -/
def IsLate (assignments : List (Ident × Expr Literal)) (d d' : Diagnostic) : Prop :=
  ∃ a ∈ assignments, d' = ⟨a.1.loc, .undeclared a.1.name⟩ ∧
    a.2.loc.span.start ≤ d.start ∧ d.start < a.2.loc.span.stop

/-- The faults lie between two bytes, and come in the order of the text but for
those that are late. -/
structure InOrder (assignments : List (Ident × Expr Literal)) (faults : List Diagnostic)
    (i j : Nat) : Prop where
  le : i ≤ j
  within : ∀ d ∈ faults, i ≤ d.start ∧ d.start < j
  ordered : faults.Pairwise fun d d' => d.start ≤ d'.start ∨ IsLate assignments d d'

namespace InOrder

variable {A : List (Ident × Expr Literal)} {f g : List Diagnostic} {i j k l : Nat}

theorem nil (h : i ≤ j) : InOrder A [] i j :=
  ⟨h, List.forall_mem_nil _, .nil⟩

theorem single {d : Diagnostic} (hi : i ≤ d.start) (hj : d.start < j) : InOrder A [d] i j :=
  ⟨by omega, by simp [hi, hj], List.pairwise_singleton _ _⟩

theorem widen (h : InOrder A f j k) (hij : i ≤ j) (hkl : k ≤ l) : InOrder A f i l := by
  have hjk := h.le
  refine ⟨by omega, fun d hd => ?_, h.ordered⟩
  obtain ⟨hlow, hhigh⟩ := h.within d hd
  exact ⟨by omega, by omega⟩

theorem append (hf : InOrder A f i j) (hjk : j ≤ k) (hg : InOrder A g k l) :
    InOrder A (f ++ g) i l := by
  have hij := hf.le
  have hkl := hg.le
  refine ⟨by omega, ?_, List.pairwise_append.mpr ⟨hf.ordered, hg.ordered, fun d hd d' hd' => ?_⟩⟩
  · exact List.forall_mem_append.mpr ⟨(hf.widen (Nat.le_refl i) (by omega)).within,
      (hg.widen (by omega) (Nat.le_refl l)).within⟩
  · have hbefore := (hf.within d hd).2
    have hbehind := (hg.within d' hd').1
    exact .inl (by omega)

end InOrder

-- ---------------------------------------------------------------------------
-- Whom a construct blames
-- ---------------------------------------------------------------------------

/-- The list is empty or about the one location. -/
def BlamesAtMost (loc : Location) (faults : List Diagnostic) : Prop :=
  faults = [] ∨ ∃ fault, faults = [⟨loc, fault⟩]

theorem BlamesAtMost.inOrder {loc : Location} {faults : List Diagnostic}
    (h : BlamesAtMost loc faults) {A : List (Ident × Expr Literal)} {i j : Nat}
    (hloc : loc.span.start = i) (hij : i < j) : InOrder A faults i j := by
  rcases h with rfl | ⟨fault, rfl⟩
  · exact .nil (Nat.le_of_lt hij)
  · exact .single (Nat.le_of_eq hloc.symm) (by rwa [Diagnostic.start, hloc])

section

variable (loc : Location)

theorem judgeName_blames (x : String) (found : Option Ty) :
    BlamesAtMost loc (judgeName loc x found).faults := by
  cases found with
  | none => exact .inr ⟨_, rfl⟩
  | some ty => exact .inl rfl

theorem UnaryOp.judge_blames (op : UnaryOp) (ty : Ty) :
    (op.judge loc ty).faults = [] ∨
      ty ≠ .error ∧ BlamesAtMost loc (op.judge loc ty).faults := by
  unfold UnaryOp.judge
  split
  · exact .inl rfl
  · next hty =>
    refine .inr ⟨by rintro rfl; exact hty rfl, ?_⟩
    cases op.check ty with
    | ok _ => exact .inl rfl
    | error fault => exact .inr ⟨fault, rfl⟩

theorem BinaryOp.judge_blames (op : BinaryOp) (left right : Ty) :
    (op.judge loc left right).faults = [] ∨
      left ≠ .error ∧ right ≠ .error ∧ BlamesAtMost loc (op.judge loc left right).faults := by
  unfold BinaryOp.judge
  split
  · exact .inl rfl
  · next hty =>
    have hright : right.isError ≠ true := fun h => hty (by rw [h, Bool.or_true])
    have hleft : left.isError ≠ true := fun h => hty (by rw [h, Bool.true_or])
    refine .inr ⟨by rintro rfl; exact hleft rfl, by rintro rfl; exact hright rfl, ?_⟩
    cases op.check left right with
    | ok _ => exact .inl rfl
    | error fault => exact .inr ⟨fault, rfl⟩

theorem judgeAssignment_blames (target : Ident) (found : Option Ty) (value : Ty) :
    (judgeAssignment target found value).faults = [] ∨
      (value ≠ .error ∧ BlamesAtMost target.loc (judgeAssignment target found value).faults) ∨
      (judgeAssignment target found value).faults = [⟨target.loc, .undeclared target.name⟩] := by
  unfold judgeAssignment
  cases found with
  | none => exact .inr (.inr rfl)
  | some ty =>
    dsimp only
    split
    · exact .inl rfl
    · next hvalue =>
      refine .inr (.inl ⟨by rintro rfl; exact hvalue rfl, ?_⟩)
      split
      · exact .inl rfl
      · split
        · exact .inl rfl
        · exact .inr ⟨_, rfl⟩

theorem conditionFaults_blames (ty : Ty) :
    conditionFaults loc ty = [] ∨ ty ≠ .error ∧ BlamesAtMost loc (conditionFaults loc ty) := by
  unfold conditionFaults
  split
  · next h => exact .inr ⟨h.2, .inr ⟨_, rfl⟩⟩
  · exact .inl rfl

theorem judgeBranches_blames (cond onTrue onFalse : Ty) :
    (judgeBranches loc cond onTrue onFalse).faults = [] ∨
      cond = .bool ∧ onTrue ≠ .error ∧ onFalse ≠ .error ∧
        BlamesAtMost loc (judgeBranches loc cond onTrue onFalse).faults := by
  unfold judgeBranches
  split
  · exact .inl rfl
  · next h =>
    obtain ⟨hcond, htrue, hfalse⟩ : cond = .bool ∧ ¬ onTrue.isError ∧ ¬ onFalse.isError := by
      simpa only [not_or, ne_eq, Decidable.not_not] using h
    refine .inr ⟨hcond, by rintro rfl; exact htrue rfl, by rintro rfl; exact hfalse rfl, ?_⟩
    split
    · exact .inl rfl
    · split
      · exact .inl rfl
      · exact .inr ⟨_, rfl⟩

end

/-- **An expression with a type is not at fault**, and neither is any part of
it. -/
theorem Expr.faults_eq_nil {e : Expr Literal} {Γ : Symbols} (h : e.ty Γ ≠ .error) :
    e.faults Γ = [] := by
  induction e with
  | literal loc value => rfl
  | name loc x => rw [faults, find?_of_ty h]; rfl
  | group loc inner ih => exact ih h
  | unary loc op operand ih => rw [faults, judge_of_unary h, ih (operand_of_unary h)]; rfl
  | binary loc op left right ihl ihr =>
    obtain ⟨w, hjudge⟩ := judge_of_binary h
    obtain ⟨hleft, hright, -⟩ := BinaryOp.judge_eq_ok.mp hjudge
    rw [faults, hjudge, ihl hleft, ihr hright]
    rfl
  | assign loc target value ih =>
    obtain ⟨w, hjudge⟩ := judge_of_assign h
    obtain ⟨-, hvalue, -⟩ := judgeAssignment_eq_ok.mp hjudge
    rw [faults, hjudge, ih hvalue]
    rfl
  | ternary loc cond onTrue onFalse ihc iht ihf =>
    have hjudge := judge_of_ternary h
    obtain ⟨hcond, htrue, hfalse, -⟩ := judgeBranches_eq_ok.mp hjudge
    rw [faults, hjudge, ihc (by rw [hcond]; decide), iht htrue, ihf hfalse, hcond]
    rfl

/-- A construct adds a report of its own only if its parts gave none. -/
theorem InOrder.own {A : List (Ident × Expr Literal)} {f own : List Diagnostic} {i j k : Nat}
    {loc : Location} (h : InOrder A f j k) (hown : own = [] ∨ f = [] ∧ BlamesAtMost loc own)
    (hij : i ≤ j) (hloc : loc.span.start = i) (hik : i < k) : InOrder A (f ++ own) i k := by
  rcases hown with rfl | ⟨rfl, hblames⟩
  · rw [List.append_nil]
    exact h.widen hij (Nat.le_refl k)
  · exact hblames.inOrder hloc hik

-- ---------------------------------------------------------------------------
-- Expressions
-- ---------------------------------------------------------------------------

variable {A : List (Ident × Expr Literal)} {S : Literal → Lexeme → Prop} {c d : Cursor}

theorem Ident.Covers.start_eq {x : Ident} (h : x.Covers c d) : x.loc.span.start = c.offset := by
  rw [h.run_word.1]
  rfl

theorem Expr.Covers.start_eq {e : Expr Literal} (h : e.Covers S c d) :
    e.loc.span.start = c.offset := by
  rw [h.loc_eq]
  rfl

theorem Expr.Covers.stop_eq {e : Expr Literal} (h : e.Covers S c d) :
    e.loc.span.stop = d.offset := by
  rw [h.loc_eq]
  rfl

/-- Brackets are never blamed. -/
theorem Enclosed.inOrder {left right : String} {R : Cursor → Cursor → Prop} {f : List Diagnostic}
    (h : Enclosed left right R c d) (hR : ∀ c d, R c d → InOrder A f c.offset d.offset) :
    InOrder A f c.offset d.offset := by
  obtain ⟨c₁, c₂, hopen, hinner, hclose⟩ := h
  have hle := (Grammar.offset_of_symbol hopen).1.skipGap.offset_le
  have hle' := (c₂.precedes_skipGap.trans (Grammar.offset_of_symbol hclose).1).offset_le
  exact (hR _ _ hinner).widen hle hle'

/-- The faults of a condition are in order if those of the expression are. -/
theorem Expr.inOrder_conditionFaults {cond : Expr Literal} {Γ : Symbols} (hcond : cond.Covers S c d)
    (h : InOrder A (cond.faults Γ) c.offset d.offset) :
    InOrder A (cond.conditionFaults Γ) c.offset d.offset := by
  have hown := conditionFaults_blames cond.loc (cond.ty Γ)
  exact h.own (hown.imp_right (And.imp_left faults_eq_nil)) (Nat.le_refl _) hcond.start_eq
    hcond.before.2

/-- The report of an undeclared target comes behind those of the value. -/
theorem Ident.Covers.inOrder_undeclared {target : Ident} {value : Expr Literal}
    {c₁ c₂ c₃ : Cursor} {f : List Diagnostic} (htarget : target.Covers c c₁)
    (hgap : c₁.offset ≤ c₂.offset) (hvalue : value.Covers S c₂ c₃) (hA : (target, value) ∈ A)
    (h : InOrder A f c₂.offset c₃.offset) :
    InOrder A (f ++ [⟨target.loc, .undeclared target.name⟩]) c.offset c₃.offset := by
  have hstart := htarget.start_eq
  have hname := htarget.offset.2.1
  have hle := h.le
  have hown : InOrder A [⟨target.loc, .undeclared target.name⟩] c.offset c₃.offset :=
    .single (Nat.le_of_eq hstart.symm) (by rw [Diagnostic.start, hstart]; omega)
  have hf := h.widen (i := c.offset) (by omega) (Nat.le_refl c₃.offset)
  refine ⟨hf.le, List.forall_mem_append.mpr ⟨hf.within, hown.within⟩,
    List.pairwise_append.mpr ⟨h.ordered, hown.ordered, fun d hd d' hd' => .inr ?_⟩⟩
  refine ⟨(target, value), hA, List.mem_singleton.mp hd', ?_⟩
  rw [hvalue.start_eq, hvalue.stop_eq]
  exact h.within d hd

/-- **The faults of an expression** are in the order of the text, but for the
targets of assignments. -/
theorem Expr.inOrder_faults {e : Expr Literal} (h : e.Covers S c d) (hA : e.assignments ⊆ A)
    (Γ : Symbols) : InOrder A (e.faults Γ) c.offset d.offset := by
  induction e generalizing c d with
  | literal loc value => exact .nil (Nat.le_of_lt h.before.2)
  | name loc x => exact (judgeName_blames loc x _).inOrder h.start_eq h.before.2
  | group loc inner ih => exact h.2.inOrder fun _ _ hinner => ih hinner hA
  | unary loc op operand ih =>
    have hstart := h.start_eq
    have hbefore := h.before
    obtain ⟨-, c₁, hop, hoperand⟩ := h
    have hle := ((Grammar.unaryOp_advances op).passes hop).skipGap.1.offset_le
    have hown := op.judge_blames loc (operand.ty Γ)
    exact (ih hoperand hA).own (hown.imp_right (And.imp_left faults_eq_nil)) hle hstart hbefore.2
  | binary loc op left right ihl ihr =>
    have hstart := h.start_eq
    have hbefore := h.before
    obtain ⟨hAl, hAr⟩ := List.append_subset.mp hA
    obtain ⟨-, c₁, c₂, hleft, hop, hright⟩ := h
    have hle := (c₁.precedes_skipGap.trans (Grammar.offset_of_binaryOp hop).1.skipGap).offset_le
    have hparts := (ihl hleft hAl).append hle (ihr hright hAr)
    refine hparts.own ?_ (Nat.le_refl _) hstart hbefore.2
    refine (op.judge_blames loc (left.ty Γ) (right.ty Γ)).imp_right ?_
    rintro ⟨hl, hr, hblames⟩
    exact ⟨by rw [faults_eq_nil hl, faults_eq_nil hr]; rfl, hblames⟩
  | assign loc target value ih =>
    obtain ⟨hmem, hAv⟩ := List.cons_subset.mp hA
    obtain ⟨-, c₁, c₂, c₃, htarget, hop, hvalue, rfl⟩ := h
    have hle := (c₁.precedes_skipGap.trans (Grammar.assignOp_advances.passes hop).skipGap.1).offset_le
    have hname := htarget.offset.2.1
    have hend := hvalue.before.2
    have hparts := ih hvalue hAv
    refine InOrder.widen (k := c₃.offset) ?_ (Nat.le_refl _) c₃.le_skipGap
    -- Only the last of the three reports does not wait for a value without faults.
    rcases judgeAssignment_blames target (Γ.find? target.name) (value.ty Γ) with
      hnone | ⟨hty, hblames⟩ | hundeclared
    · exact hparts.own (.inl hnone) (by omega) htarget.start_eq (by omega)
    · exact hparts.own (.inr ⟨faults_eq_nil hty, hblames⟩) (by omega) htarget.start_eq (by omega)
    · rw [faults, hundeclared]
      exact htarget.inOrder_undeclared hle hvalue hmem hparts
  | ternary loc cond onTrue onFalse ihc iht ihf =>
    have hstart := h.start_eq
    have hbefore := h.before
    obtain ⟨hAct, hAf⟩ := List.append_subset.mp hA
    obtain ⟨hAc, hAt⟩ := List.append_subset.mp hAct
    obtain ⟨-, c₁, c₂, c₃, c₄, c₅, hcond, hmark, htrue, hcolon, hfalse, rfl⟩ := h
    have hle := (c₁.precedes_skipGap.trans (Grammar.offset_of_symbol hmark).1.skipGap).offset_le
    have hle' := (c₃.precedes_skipGap.trans (Grammar.offset_of_symbol hcolon).1.skipGap).offset_le
    have hparts := (((inOrder_conditionFaults hcond (ihc hcond hAc)).append hle
      (iht htrue hAt)).append hle' (ihf hfalse hAf)).widen (Nat.le_refl _) c₅.le_skipGap
    refine hparts.own ?_ (Nat.le_refl _) hstart hbefore.2
    refine (judgeBranches_blames loc (cond.ty Γ) (onTrue.ty Γ) (onFalse.ty Γ)).imp_right ?_
    rintro ⟨hc, ht, hf, hblames⟩
    -- The branches are compared only under a condition that is a bool.
    have hclean : cond.conditionFaults Γ = [] := by
      rw [conditionFaults, faults_eq_nil (by rw [hc]; decide), hc]
      rfl
    exact ⟨by rw [hclean, faults_eq_nil ht, faults_eq_nil hf]; rfl, hblames⟩

-- ---------------------------------------------------------------------------
-- Statements
-- ---------------------------------------------------------------------------

theorem Ident.Covers.inOrder {x : Ident} (h : x.Covers c d) {faults : List Diagnostic}
    (hblames : BlamesAtMost x.loc faults) : InOrder A faults c.offset d.offset :=
  hblames.inOrder h.start_eq h.offset.2.1

theorem inOrder_declareFaults {names : List Ident} (h : Listed Ident.Covers names c d) (ty : Ty)
    (Γ : Symbols) : InOrder A (declareFaults ty Γ names) c.offset d.offset := by
  refine h.collected (fun _ => rfl) (fun _ _ _ => rfl) InOrder.append ?_ Γ
  intro Δ x _ c d hx
  refine hx.inOrder ?_
  split
  · exact .inr ⟨_, rfl⟩
  · exact .inl rfl

theorem inOrder_readFaults {names : List Ident} (h : Listed Ident.Covers names c d) (Γ : Symbols) :
    InOrder A (names.flatMap (readFaults Γ)) c.offset d.offset := by
  refine h.collected (u := fun Γ _ => Γ) (fun _ => rfl) (fun _ _ _ => List.flatMap_cons)
    InOrder.append ?_ Γ
  intro Δ x _ c d hx
  refine hx.inOrder ?_
  rw [readFaults]
  split
  · exact .inl rfl
  · exact .inr ⟨_, rfl⟩

theorem inOrder_writeFaults {exprs : List (Expr Literal)} (h : Listed (Expr.Covers S) exprs c d)
    (hA : exprs.flatMap Expr.assignments ⊆ A) (Γ : Symbols) :
    InOrder A (exprs.flatMap (Expr.faults Γ)) c.offset d.offset := by
  refine h.collected (u := fun Γ _ => Γ) (fun _ => rfl) (fun _ _ _ => List.flatMap_cons)
    InOrder.append ?_ Γ
  intro Δ e he c d hcovers
  exact Expr.inOrder_faults hcovers (fun a ha => hA (List.mem_flatMap.mpr ⟨e, he, ha⟩)) Δ

/-- A condition in its parentheses. -/
theorem Expr.inOrder_condition {cond : Expr Literal} (h : Enclosed "(" ")" (cond.Covers S) c d)
    (hA : cond.assignments ⊆ A) (Γ : Symbols) :
    InOrder A (cond.conditionFaults Γ) c.offset d.offset :=
  h.inOrder fun _ _ hcond => inOrder_conditionFaults hcond (inOrder_faults hcond hA Γ)

mutual

/-- **The faults of a statement** are in the order of the text, but for the targets
of assignments. -/
theorem Stmt.inOrder_faultsFrom {s : Stmt Literal} {c d : Cursor} (h : s.Covers S c d)
    (hA : s.assignments ⊆ A) (Γ : Symbols) : InOrder A (s.faultsFrom Γ) c.offset d.offset := by
  have hsemicolon : ∀ {c d : Cursor}, (Grammar.symbol ";").Passes c.skipGap d →
      c.offset ≤ d.offset := fun {c d} hmark =>
    (c.precedes_skipGap.trans (Grammar.offset_of_symbol hmark).1).offset_le
  have hkeyword : ∀ {k : Keyword} {c d : Cursor}, (Grammar.keyword k).Passes c d →
      c.offset ≤ d.skipGap.offset := fun {k c d} hword =>
    ((Grammar.keyword_advances k).passes hword).skipGap.1.offset_le
  cases s with
  | empty loc => exact .nil (Nat.le_of_lt h.before.2)
  | declaration loc ty names =>
    obtain ⟨-, c₁, c₂, hty, hlisted, hmark⟩ := h
    have hle := (Grammar.typeName_advances _ _ _ hty).skipGap.1.offset_le
    exact (inOrder_declareFaults hlisted ty Γ).widen hle (hsemicolon hmark)
  | expression loc e =>
    obtain ⟨-, c₁, he, hmark⟩ := h
    exact (Expr.inOrder_faults he hA Γ).widen (Nat.le_refl _) (hsemicolon hmark)
  | read loc names =>
    obtain ⟨-, c₁, c₂, hword, hlisted, hmark⟩ := h
    exact (inOrder_readFaults hlisted Γ).widen (hkeyword hword) (hsemicolon hmark)
  | write loc exprs =>
    obtain ⟨-, c₁, c₂, hword, hlisted, hmark⟩ := h
    exact (inOrder_writeFaults hlisted hA Γ).widen (hkeyword hword) (hsemicolon hmark)
  | block loc body => exact h.2.inOrder fun _ _ hbody => inOrder_faultsFromAll hbody hA Γ
  | ifThen loc cond onTrue =>
    obtain ⟨hAc, hAt⟩ := List.append_subset.mp hA
    obtain ⟨-, c₁, c₂, c₃, hword, hcond, htrue, rfl⟩ := h
    exact ((Expr.inOrder_condition hcond hAc Γ).append c₂.le_skipGap
      (inOrder_faultsFrom htrue hAt Γ)).widen (hkeyword hword) c₃.le_skipGap
  | ifElse loc cond onTrue onFalse =>
    obtain ⟨hAct, hAf⟩ := List.append_subset.mp hA
    obtain ⟨hAc, hAt⟩ := List.append_subset.mp hAct
    obtain ⟨-, c₁, c₂, c₃, c₄, hword, hcond, htrue, helse, hfalse⟩ := h
    exact (((Expr.inOrder_condition hcond hAc Γ).append c₂.le_skipGap
      (inOrder_faultsFrom htrue hAt Γ)).append (Nat.le_trans c₃.le_skipGap (hkeyword helse))
      (inOrder_faultsFrom hfalse hAf _)).widen (hkeyword hword) (Nat.le_refl _)
  | whileDo loc cond body =>
    obtain ⟨hAc, hAb⟩ := List.append_subset.mp hA
    obtain ⟨-, c₁, c₂, hword, hcond, hbody⟩ := h
    exact ((Expr.inOrder_condition hcond hAc Γ).append c₂.le_skipGap
      (inOrder_faultsFrom hbody hAb Γ)).widen (hkeyword hword) (Nat.le_refl _)
  | doWhile loc body cond =>
    obtain ⟨hAb, hAc⟩ := List.append_subset.mp hA
    obtain ⟨-, c₁, c₂, c₃, c₄, hword, hbody, hwhile, hcond, hmark⟩ := h
    exact ((inOrder_faultsFrom hbody hAb Γ).append (Nat.le_trans c₂.le_skipGap (hkeyword hwhile))
      (Expr.inOrder_condition hcond hAc _)).widen (hkeyword hword) (hsemicolon hmark)

theorem Stmt.inOrder_faultsFromAll {body : List (Stmt Literal)} {c d : Cursor}
    (h : Stmt.CoversAll S body c d) (hA : Stmt.assignmentsAll body ⊆ A) (Γ : Symbols) :
    InOrder A (Stmt.faultsFromAll Γ body) c.offset d.offset := by
  cases body with
  | nil =>
    cases h
    exact .nil (Nat.le_refl _)
  | cons s rest =>
    obtain ⟨hAs, hAr⟩ := List.append_subset.mp hA
    obtain ⟨c₁, hs, hrest⟩ := h
    exact ((inOrder_faultsFrom hs hAs Γ).append (Nat.le_refl _)
      (inOrder_faultsFromAll hrest hAr _)).widen c.le_skipGap (Nat.le_refl _)

end

-- ---------------------------------------------------------------------------
-- Targets in front of values
-- ---------------------------------------------------------------------------

/-- The target of an assignment stands in front of the value. -/
def TargetFirst (a : Ident × Expr Literal) : Prop :=
  a.1.loc.span.start < a.2.loc.span.start

theorem Expr.targetFirst {e : Expr Literal} (h : e.Covers S c d) :
    ∀ a ∈ e.assignments, TargetFirst a := by
  induction e generalizing c d with
  | literal loc value => exact List.forall_mem_nil _
  | name loc x => exact List.forall_mem_nil _
  | group loc inner ih =>
    obtain ⟨-, c₁, c₂, -, hinner, -⟩ := h
    exact ih hinner
  | unary loc op operand ih =>
    obtain ⟨-, c₁, -, hoperand⟩ := h
    exact ih hoperand
  | binary loc op left right ihl ihr =>
    obtain ⟨-, c₁, c₂, hleft, -, hright⟩ := h
    exact List.forall_mem_append.mpr ⟨ihl hleft, ihr hright⟩
  | assign loc target value ih =>
    obtain ⟨-, c₁, c₂, c₃, htarget, hop, hvalue, rfl⟩ := h
    have hname := htarget.offset.2.1
    have hle := (c₁.precedes_skipGap.trans (Grammar.assignOp_advances.passes hop).skipGap.1).offset_le
    refine List.forall_mem_cons.mpr ⟨?_, ih hvalue⟩
    rw [TargetFirst, htarget.start_eq, hvalue.start_eq]
    omega
  | ternary loc cond onTrue onFalse ihc iht ihf =>
    obtain ⟨-, c₁, c₂, c₃, c₄, c₅, hcond, -, htrue, -, hfalse, -⟩ := h
    exact List.forall_mem_append.mpr
      ⟨List.forall_mem_append.mpr ⟨ihc hcond, iht htrue⟩, ihf hfalse⟩

theorem Listed.targetFirst {exprs : List (Expr Literal)} (h : Listed (Expr.Covers S) exprs c d) :
    ∀ a ∈ exprs.flatMap Expr.assignments, TargetFirst a := by
  induction h with
  | one he =>
    rw [List.flatMap_singleton]
    exact Expr.targetFirst he
  | more he _ _ ih =>
    rw [List.flatMap_cons]
    exact List.forall_mem_append.mpr ⟨Expr.targetFirst he, ih⟩

theorem Enclosed.targetFirst {cond : Expr Literal} (h : Enclosed "(" ")" (cond.Covers S) c d) :
    ∀ a ∈ cond.assignments, TargetFirst a := by
  obtain ⟨c₁, c₂, -, hcond, -⟩ := h
  exact Expr.targetFirst hcond

mutual

theorem Stmt.targetFirst {s : Stmt Literal} {c d : Cursor} (h : s.Covers S c d) :
    ∀ a ∈ s.assignments, TargetFirst a := by
  cases s with
  | empty loc => exact List.forall_mem_nil _
  | declaration loc ty names => exact List.forall_mem_nil _
  | expression loc e =>
    obtain ⟨-, c₁, he, -⟩ := h
    exact Expr.targetFirst he
  | read loc names => exact List.forall_mem_nil _
  | write loc exprs =>
    obtain ⟨-, c₁, c₂, -, hlisted, -⟩ := h
    exact hlisted.targetFirst
  | block loc body =>
    obtain ⟨-, c₁, c₂, -, hbody, -⟩ := h
    exact targetFirstAll hbody
  | ifThen loc cond onTrue =>
    obtain ⟨-, c₁, c₂, c₃, -, hcond, htrue, -⟩ := h
    exact List.forall_mem_append.mpr ⟨hcond.targetFirst, targetFirst htrue⟩
  | ifElse loc cond onTrue onFalse =>
    obtain ⟨-, c₁, c₂, c₃, c₄, -, hcond, htrue, -, hfalse⟩ := h
    exact List.forall_mem_append.mpr
      ⟨List.forall_mem_append.mpr ⟨hcond.targetFirst, targetFirst htrue⟩, targetFirst hfalse⟩
  | whileDo loc cond body =>
    obtain ⟨-, c₁, c₂, -, hcond, hbody⟩ := h
    exact List.forall_mem_append.mpr ⟨hcond.targetFirst, targetFirst hbody⟩
  | doWhile loc body cond =>
    obtain ⟨-, c₁, c₂, c₃, c₄, -, hbody, -, hcond, -⟩ := h
    exact List.forall_mem_append.mpr ⟨targetFirst hbody, hcond.targetFirst⟩

theorem Stmt.targetFirstAll {body : List (Stmt Literal)} {c d : Cursor}
    (h : Stmt.CoversAll S body c d) : ∀ a ∈ Stmt.assignmentsAll body, TargetFirst a := by
  cases body with
  | nil => exact List.forall_mem_nil _
  | cons s rest =>
    obtain ⟨c₁, hs, hrest⟩ := h
    exact List.forall_mem_append.mpr ⟨targetFirst hs, targetFirstAll hrest⟩

end

-- ---------------------------------------------------------------------------
-- Programs
-- ---------------------------------------------------------------------------

/-- **The order of diagnostics.** Of two diagnostics of a program the earlier one is
about text that starts no later than that of the other, except where the other is
about an undeclared target of an assignment and the earlier one about the value. -/
theorem Program.diagnostics_order {source : String} {program : Program}
    (h : parse source = .ok program) :
    program.compile.diagnostics.Pairwise fun d d' =>
      d'.loc.span.start < d.loc.span.start ↔ IsLate (Stmt.assignmentsAll program) d d' := by
  obtain ⟨c, hcovers, -⟩ := covers_of_parse h
  have hfirst := Stmt.targetFirstAll hcovers
  have horder := (Stmt.inOrder_faultsFromAll hcovers (List.Subset.refl _) .empty).ordered
  have hdiagnostics : program.compile.diagnostics = Stmt.faultsFromAll .empty program := by
    rw [compile_eq]
    rfl
  rw [hdiagnostics]
  refine horder.imp fun {d d'} hle => ⟨fun hlt => ?_, ?_⟩
  · rcases hle with hle | hlate
    · exact absurd hlt (Nat.not_lt.mpr hle)
    · exact hlate
  · rintro ⟨a, ha, rfl, hlow, -⟩
    exact Nat.lt_of_lt_of_le (hfirst a ha) hlow

/-- Assignments within one another: their targets are reported from the inside out. -/
theorem Program.diagnostics_order_nested :
    ∃ program, parse "x = y + (z = w); write q;" = .ok program ∧
      program.compile.diagnostics.map Diagnostic.start = [4, 13, 9, 0, 23] ∧
      program.compile.diagnostics.Pairwise fun d d' =>
        d'.loc.span.start < d.loc.span.start ↔ IsLate (Stmt.assignmentsAll program) d d' := by
  obtain ⟨program, hparse, hstarts⟩ : ∃ program, parse "x = y + (z = w); write q;" = .ok program ∧
      program.compile.diagnostics.map Diagnostic.start = [4, 13, 9, 0, 23] :=
    exists_ok_of_toOption (by decide +kernel)
  exact ⟨program, hparse, hstarts, diagnostics_order hparse⟩

/-- Without the exception the diagnostics are not in order: the undeclared value is
reported first, and the target in front of it second. -/
theorem Program.diagnostics_outOfOrder :
    ∃ program, parse "x = y;" = .ok program ∧
      program.compile.diagnostics.map Diagnostic.start = [4, 0] ∧
      ¬ program.compile.diagnostics.Pairwise fun d d' => d.loc.span.start ≤ d'.loc.span.start := by
  obtain ⟨program, hparse, hstarts⟩ : ∃ program, parse "x = y;" = .ok program ∧
      program.compile.diagnostics.map Diagnostic.start = [4, 0] :=
    exists_ok_of_toOption (by decide +kernel)
  refine ⟨program, hparse, hstarts, fun hpairwise => ?_⟩
  have hsorted : [4, 0].Pairwise fun i j : Nat => i ≤ j := by
    rw [← hstarts]
    exact List.pairwise_map.mpr hpairwise
  exact absurd hsorted (by decide)

end Cairn
