import Cairn.Proofs.Correctness
import Cairn.Proofs.Heights

/-!
# Cairn — the stack that a program needs

A program that checks needs no more of the stack than can be read off its text:
an operator needs, while its right operand is evaluated, one place for the left
one, and a list of values to write needs one place for each value in front. At
the end of each statement everything is taken off again.

## Main definitions

* `Expr.need`, `Stmt.need`, `Program.need` — how much of the stack is needed.

## Main statements

* `Expr.flows`, `Stmt.flows`  — the code of a construct has heights up to its need.
* `Program.stack_balanced`    — no run is ever above what its program needs.
-/

namespace Cairn

-- ---------------------------------------------------------------------------
-- What is needed
-- ---------------------------------------------------------------------------

/-- How many values an expression has on the stack at most, while it is evaluated. -/
def Expr.need {L : Type} : Expr L → Nat
  | .literal _ _ => 1
  | .name _ _ => 1
  | .group _ inner => inner.need
  | .unary _ _ operand => operand.need
  | .binary _ _ left right => max left.need (1 + right.need)
  | .assign _ _ value => value.need
  | .ternary _ cond onTrue onFalse => max cond.need (max onTrue.need onFalse.need)

/-- The same for expressions one after the other, each of which leaves its value. -/
def needs {L : Type} : List (Expr L) → Nat
  | [] => 0
  | e :: rest => max e.need (1 + needs rest)

namespace Stmt

mutual

/-- How many values a statement has on the stack at most. -/
def need {L : Type} : Stmt L → Nat
  | .empty _ => 0
  | .declaration _ _ _ => 1
  | .expression _ e => e.need
  | .read _ _ => 1
  | .write _ exprs => needs exprs
  | .block _ body => needAll body
  | .ifThen _ cond onTrue => max cond.need onTrue.need
  | .ifElse _ cond onTrue onFalse => max cond.need (max onTrue.need onFalse.need)
  | .whileDo _ cond body => max cond.need body.need
  | .doWhile _ body cond => max body.need cond.need

/-- The most that one of the statements needs. -/
def needAll {L : Type} : List (Stmt L) → Nat
  | [] => 0
  | s :: rest => max s.need (needAll rest)

end

end Stmt

/-- How many values a program has on the stack at most. -/
def Program.need (program : Program) : Nat :=
  Stmt.needAll program

-- ---------------------------------------------------------------------------
-- Heights at labels
-- ---------------------------------------------------------------------------

/-- The heights at the labels of an expression, in their order, if it starts at
height `d`. The branch that is not taken starts where the choice does, and behind
the choice there is its value. -/
def Expr.labelHeights {L : Type} (d : Nat) : Expr L → List Nat
  | .literal _ _ => []
  | .name _ _ => []
  | .group _ inner => inner.labelHeights d
  | .unary _ _ operand => operand.labelHeights d
  | .binary _ _ left right => left.labelHeights d ++ right.labelHeights (d + 1)
  | .assign _ _ value => value.labelHeights d
  | .ternary _ cond onTrue onFalse =>
    [d, d + 1] ++ cond.labelHeights d ++ onTrue.labelHeights d ++ onFalse.labelHeights d

/-- The heights at the labels of expressions, each of which leaves its value. -/
def labelHeightsFrom {L : Type} : Nat → List (Expr L) → List Nat
  | _, [] => []
  | d, e :: rest => e.labelHeights d ++ labelHeightsFrom (d + 1) rest

namespace Stmt

mutual

/-- The heights at the labels of a statement: zero, but for those inside its expressions. -/
def labelHeights {L : Type} : Stmt L → List Nat
  | .expression _ e => e.labelHeights 0
  | .write _ exprs => labelHeightsFrom 0 exprs
  | .block _ body => labelHeightsAll body
  | .ifThen _ cond onTrue => [0] ++ cond.labelHeights 0 ++ onTrue.labelHeights
  | .ifElse _ cond onTrue onFalse =>
    [0, 0] ++ cond.labelHeights 0 ++ onTrue.labelHeights ++ onFalse.labelHeights
  | .whileDo _ cond body => [0, 0] ++ cond.labelHeights 0 ++ body.labelHeights
  | .doWhile _ body cond => [0, 0] ++ body.labelHeights ++ cond.labelHeights 0
  | _ => []

/-- The heights at the labels of statements. -/
def labelHeightsAll {L : Type} : List (Stmt L) → List Nat
  | [] => []
  | s :: rest => s.labelHeights ++ labelHeightsAll rest

end

end Stmt

/-- The labels from number `n` on have these heights. -/
def Marks (L : UInt32 → Nat) : Nat → List Nat → Prop
  | _, [] => True
  | n, h :: rest => L (.ofNat n) = h ∧ Marks L (n + 1) rest

section

variable {L : UInt32 → Nat} {n : Nat}

@[simp] theorem marks_nil : Marks L n [] ↔ True := Iff.rfl

@[simp] theorem marks_cons {h : Nat} {rest : List Nat} :
    Marks L n (h :: rest) ↔ L (.ofNat n) = h ∧ Marks L (n + 1) rest := Iff.rfl

@[simp] theorem marks_append {hs rest : List Nat} :
    Marks L n (hs ++ rest) ↔ Marks L n hs ∧ Marks L (n + hs.length) rest := by
  induction hs generalizing n with
  | nil => simp
  | cons h hs ih =>
    rw [List.cons_append, marks_cons, marks_cons, ih, and_assoc, List.length_cons,
      Nat.add_assoc, Nat.add_comm 1]

end

@[simp] theorem Expr.length_labelHeights {L : Type} (e : Expr L) (d : Nat) :
    (e.labelHeights d).length = e.labelCount := by
  induction e generalizing d with
  | literal | name => rfl
  | group loc inner ih => exact ih d
  | unary loc op operand ih => exact ih d
  | binary loc op left right ihl ihr =>
    rw [labelHeights, List.length_append, ihl, ihr, labelCount]
  | assign loc target value ih => exact ih d
  | ternary loc cond onTrue onFalse ihc iht ihf =>
    simp only [labelHeights, List.length_append, ihc, iht, ihf, labelCount, List.length_cons,
      List.length_nil]

@[simp] theorem length_labelHeightsFrom {L : Type} (exprs : List (Expr L)) (d : Nat) :
    (labelHeightsFrom d exprs).length = labelCounts exprs := by
  induction exprs generalizing d with
  | nil => rfl
  | cons e rest ih =>
    rw [labelHeightsFrom, List.length_append, e.length_labelHeights, ih, labelCounts]

@[simp] theorem Stmt.length_labelHeights {L : Type} (s : Stmt L) :
    s.labelHeights.length = s.labelCount := by
  induction s using Stmt.induction with
  | empty | declaration | read | blockNil => rfl
  | expression loc e => exact e.length_labelHeights 0
  | write loc exprs => exact length_labelHeightsFrom exprs 0
  | blockCons loc s rest ihs ihrest =>
    have hrest : (labelHeightsAll rest).length = labelCountAll rest := ihrest
    rw [labelHeights, labelHeightsAll, List.length_append, ihs, hrest, labelCount, labelCountAll]
  | ifThen loc cond onTrue ih =>
    simp only [labelHeights, List.length_append, cond.length_labelHeights, ih, labelCount,
      List.length_cons, List.length_nil]
  | ifElse loc cond onTrue onFalse iht ihf =>
    simp only [labelHeights, List.length_append, cond.length_labelHeights, iht, ihf, labelCount,
      List.length_cons, List.length_nil]
  | whileDo loc cond body ih =>
    simp only [labelHeights, List.length_append, cond.length_labelHeights, ih, labelCount,
      List.length_cons, List.length_nil]
  | doWhile loc body cond ih =>
    simp only [labelHeights, List.length_append, cond.length_labelHeights, ih, labelCount,
      List.length_cons, List.length_nil]

/-- A list of heights as heights of labels. -/
def heightOf (hs : List Nat) (id : UInt32) : Nat :=
  hs.getD id.toNat 0

theorem marks_heightOf (front : List Nat) {hs : List Nat}
    (h : front.length + hs.length ≤ UInt32.size) :
    Marks (heightOf (front ++ hs)) front.length hs := by
  induction hs generalizing front with
  | nil => trivial
  | cons height hs ih =>
    rw [List.length_cons] at h
    refine ⟨?_, ?_⟩
    · have hid : (UInt32.ofNat front.length).toNat = front.length :=
        UInt32.toNat_ofNat_of_lt' (by omega)
      rw [heightOf, hid]
      simp
    · have hlength : (front ++ [height]).length = front.length + 1 := List.length_append
      have hrest := ih (front ++ [height]) (by omega)
      rwa [List.append_assoc, hlength] at hrest

theorem Stmt.marks (s : Stmt Literal) (h : s.labelCount ≤ UInt32.size) :
    Marks (heightOf s.labelHeights) 0 s.labelHeights := by
  refine marks_heightOf [] ?_
  rw [s.length_labelHeights, List.length_nil, Nat.zero_add]
  exact h

-- ---------------------------------------------------------------------------
-- Heights of expressions
-- ---------------------------------------------------------------------------

section

variable {L : UInt32 → Nat} {b d n : Nat} {Γ : Symbols}

theorem Expr.need_pos {L : Type} (e : Expr L) : 1 ≤ e.need := by
  induction e with
  | literal | name => exact Nat.le_refl 1
  | group loc inner ih => exact ih
  | unary loc op operand ih => exact ih
  | binary loc op left right ihl ihr => exact Nat.le_trans ihl (Nat.le_max_left _ _)
  | assign loc target value ih => exact ih
  | ternary loc cond onTrue onFalse ihc iht ihf => exact Nat.le_trans ihc (Nat.le_max_left _ _)

theorem Widening.flows_onLeft (w : Widening) (hb : d + 1 ≤ b) :
    Flows L b (d + 1) w.onLeft (d + 1) := by
  cases w with
  | left => exact .one d rfl rfl rfl hb hb
  | right => exact .nil hb
  | none => exact .nil hb

theorem Widening.flows_onRight (w : Widening) (hb : d + 1 ≤ b) :
    Flows L b (d + 1) w.onRight (d + 1) := by
  cases w with
  | right => exact .one d rfl rfl rfl hb hb
  | left => exact .nil hb
  | none => exact .nil hb

theorem BinaryOp.flows (op : BinaryOp) (ty : Ty) (hb : d + 2 ≤ b) :
    Flows L b (d + 2) (op.instructions ty) (d + 1) := by
  have hone : d + 1 ≤ b := by omega
  cases op with
  | ne =>
    have hequal : Flows L b (d + 2) [.binary .eq] (d + 1) := .one d rfl rfl rfl hb hone
    have hnot : Flows L b (d + 1) [.unary .not] (d + 1) := .one d rfl rfl rfl hone hone
    exact hequal.append hnot
  | _ => exact .one d rfl rfl rfl hb hone

/-- **The code of an expression** puts one value on the stack, and has no more than its
need there in the meantime. -/
theorem Expr.flows {e : Expr Literal} (he : e.ty Γ ≠ .error) (hL : Marks L n (e.labelHeights d))
    (hb : d + e.need ≤ b) : Flows L b d (e.code Γ n) (d + 1) := by
  have hpos := e.need_pos
  induction e generalizing d n with
  | literal loc value => exact .one d rfl rfl rfl (by omega) hb
  | name loc x =>
    rw [Expr.code, find?_of_ty he]
    exact .one d rfl rfl rfl (by omega) hb
  | group loc inner ih => exact ih he hL hb hpos
  | unary loc op operand ih =>
    rw [Expr.code, judge_of_unary he]
    refine (ih (operand_of_unary he) hL hb hpos).append ?_
    have hone : d + 1 ≤ b := by
      have hneed : d + operand.need ≤ b := hb
      have hposo := operand.need_pos
      omega
    cases op <;> exact .one d rfl rfl rfl hone hone
  | binary loc op left right ihl ihr =>
    obtain ⟨w, hjudge⟩ := judge_of_binary he
    obtain ⟨hleft, hright, -⟩ := BinaryOp.judge_eq_ok.mp hjudge
    rw [labelHeights, marks_append, left.length_labelHeights] at hL
    rw [need] at hb
    have hposl := left.need_pos
    have hposr := right.need_pos
    have hone : d + 1 ≤ b := by omega
    have htwo : d + 2 ≤ b := by omega
    have hfirst := ihl hleft hL.1 (by omega) hposl
    have hsecond := ihr hright hL.2 (by omega) hposr
    simp only [Expr.code, hjudge, Verdict.code_ok]
    exact ((hfirst.append (w.flows_onLeft hone)).append hsecond).append
      ((w.flows_onRight htwo).append (op.flows _ htwo))
  | assign loc target value ih =>
    obtain ⟨w, hjudge⟩ := judge_of_assign he
    obtain ⟨-, hvalue, -⟩ := judgeAssignment_eq_ok.mp hjudge
    rw [need] at hb
    have hposv := value.need_pos
    have hone : d + 1 ≤ b := by omega
    have hvalueflows := ih hvalue hL hb hposv
    have hsave : Flows L b (d + 1) [.save target.name] d := .one d rfl rfl rfl hone (by omega)
    have hload : Flows L b d [.load target.name] (d + 1) := .one d rfl rfl rfl (by omega) hone
    simp only [Expr.code, hjudge, Verdict.code_ok]
    exact hvalueflows.append ((w.flows_onRight hone).append (hsave.append hload))
  | ternary loc cond onTrue onFalse ihc iht ihf =>
    obtain ⟨hcond, htrue, hfalse, -⟩ := judgeBranches_eq_ok.mp (judge_of_ternary he)
    simp only [labelHeights, marks_append, marks_cons, List.length_append, length_labelHeights,
      List.length_cons, List.length_nil, Nat.zero_add, ← Nat.add_assoc] at hL
    obtain ⟨⟨⟨⟨hother, hdone, -⟩, hLc⟩, hLt⟩, hLf⟩ := hL
    rw [need] at hb
    have hposc := cond.need_pos
    have hpost := onTrue.need_pos
    have hposf := onFalse.need_pos
    have hzero : d ≤ b := by omega
    have hone : d + 1 ≤ b := by omega
    have hcondflows := ihc (by rw [hcond]; decide) hLc (by omega) hposc
    have htrueflows := iht htrue hLt (by omega) hpost
    have hfalseflows := ihf hfalse hLf (by omega) hposf
    simp only [Expr.code]
    -- the branch for false starts at the height at which the one for true did
    exact ((((hcondflows.append (.fjmp rfl hother hone (.nil hzero))).append htrueflows).append
      (.jmp hdone hone (.label hother hzero (.nil hzero)))).append hfalseflows).append
      (.label hdone hone (.nil hone))

/-- Expressions one after the other leave their values. -/
theorem flows_exprsCode {exprs : List (Expr Literal)} (hexprs : ∀ e ∈ exprs, e.ty Γ ≠ .error)
    (hL : Marks L n (labelHeightsFrom d exprs)) (hd : d ≤ b) (hb : d + needs exprs ≤ b) :
    Flows L b d (exprsCode Γ n exprs) (d + exprs.length) := by
  induction exprs generalizing d n with
  | nil => exact .nil hd
  | cons e rest ih =>
    rw [labelHeightsFrom, marks_append, e.length_labelHeights] at hL
    rw [needs] at hb
    have hpos := e.need_pos
    have hfirst := e.flows (hexprs e List.mem_cons_self) hL.1 (b := b) (by omega)
    have htypes : ∀ e' ∈ rest, e'.ty Γ ≠ .error := fun e' he' =>
      hexprs e' (List.mem_cons_of_mem _ he')
    have hrest := ih htypes hL.2 (by omega) (by omega)
    rw [exprsCode, List.length_cons, Nat.add_comm rest.length, ← Nat.add_assoc]
    exact hfirst.append hrest

-- ---------------------------------------------------------------------------
-- Heights of statements
-- ---------------------------------------------------------------------------

/-- A value that is put on the stack and saved. -/
theorem flows_save {i : Instruction} (hi : i.isStraight) (hpops : i.pops = 0)
    (hpushes : i.pushes = 1) (hb : 1 ≤ b) (x : String) : Flows L b 0 [i, .save x] 0 := by
  have hzero : 0 ≤ b := Nat.zero_le b
  have hput : Flows L b 0 [i] 1 := .one 0 hi (by rw [hpops]) (by rw [hpushes]) hzero hb
  have hsave : Flows L b 1 [.save x] 0 := .one 0 rfl rfl rfl hb hzero
  exact hput.append hsave

theorem flows_declareCodeFrom (ty : Ty) (names : List Ident) (hb : 1 ≤ b) :
    Flows L b 0 (declareCodeFrom ty Γ names) 0 := by
  have hnothing : Flows L b 0 [] 0 := .nil (Nat.zero_le b)
  induction names generalizing Γ with
  | nil => exact hnothing
  | cons x rest ih =>
    rw [declareCodeFrom]
    refine .append ?_ ih
    cases Γ.find? x.name with
    | some old => exact hnothing
    | none =>
      show Flows L b 0 (zeroCode ty x) 0
      rw [zeroCode]
      cases ty.zero? with
      | some zero => exact flows_save rfl rfl rfl hb x.name
      | none => exact hnothing

theorem flows_readCode (names : List Ident) (hb : 1 ≤ b) :
    Flows L b 0 (names.flatMap (readCode Γ)) 0 := by
  have hnothing : Flows L b 0 [] 0 := .nil (Nat.zero_le b)
  induction names with
  | nil => exact hnothing
  | cons x rest ih =>
    rw [List.flatMap_cons]
    refine .append ?_ ih
    rw [readCode]
    cases readTag? Γ x with
    | some tag => exact flows_save rfl rfl rfl hb x.name
    | none => exact hnothing

/-- The code of a condition and the jump behind it. -/
theorem Expr.flows_test {cond : Expr Literal} (hreal : Γ.Real)
    (hcond : cond.conditionFaults Γ = []) (hL : Marks L n (cond.labelHeights 0))
    (hb : cond.need ≤ b) {id : UInt32} (hid : L id = 0) :
    Flows L b 0 (cond.code Γ n ++ [.fjmp id]) 0 := by
  rw [conditionFaults, List.append_eq_nil_iff] at hcond
  have htest := cond.flows (ty_ne_error hreal hcond.1) hL (b := b) (by omega)
  exact htest.append (.fjmp rfl hid htest.end_le_bound (.nil (Nat.zero_le b)))

/-- **The code of a statement** leaves the stack as it was, and has no more than its need
there in the meantime. -/
theorem Stmt.flows {s : Stmt Literal} (hreal : Γ.Real) (hs : s.DeclaresReal)
    (hfaults : s.faultsFrom Γ = []) (hL : Marks L n s.labelHeights) (hb : s.need ≤ b) :
    Flows L b 0 (s.codeFrom Γ n) 0 := by
  have hzero : 0 ≤ b := Nat.zero_le b
  have hnothing : Flows L b 0 [] 0 := .nil hzero
  induction s using Stmt.induction generalizing Γ n with
  | empty loc => exact hnothing
  | declaration loc ty names => exact flows_declareCodeFrom ty names hb
  | expression loc e =>
    rw [need] at hb
    have hvalue := e.flows (Expr.ty_ne_error hreal hfaults) hL (b := b) (by omega)
    exact hvalue.append (.one 0 rfl rfl rfl hvalue.end_le_bound hzero)
  | read loc names => exact flows_readCode names hb
  | write loc exprs =>
    have hexprs : ∀ e ∈ exprs, e.ty Γ ≠ .error := fun e he =>
      Expr.ty_ne_error hreal (List.flatMap_eq_nil_iff.mp hfaults e he)
    rw [need] at hb
    have hvalues := flows_exprsCode hexprs hL hzero (b := b) (by omega)
    exact hvalues.append (.print rfl hvalues.end_le_bound hnothing)
  | blockNil loc => exact hnothing
  | blockCons loc s rest ihs ihrest =>
    have hparts := List.append_eq_nil_iff.mp hfaults
    rw [labelHeights, labelHeightsAll, marks_append, s.length_labelHeights] at hL
    rw [need, needAll] at hb
    have hfirst := ihs hreal hs.1 hparts.1 hL.1 (by omega)
    have hrest := ihrest (real_symbolsAfter hs.1 hreal) hs.2 hparts.2 hL.2 (by rw [need]; omega)
    exact hfirst.append hrest
  | ifThen loc cond onTrue ih =>
    rw [faultsFrom, List.append_eq_nil_iff] at hfaults
    simp only [labelHeights, marks_append, marks_cons, List.length_append,
      cond.length_labelHeights, List.length_cons, List.length_nil, Nat.zero_add,
      ← Nat.add_assoc] at hL
    obtain ⟨⟨⟨hdone, -⟩, hLc⟩, hLt⟩ := hL
    rw [need] at hb
    have htest := cond.flows_test hreal hfaults.1 hLc (b := b) (by omega) hdone
    have htrue := ih hreal hs.2 hfaults.2 hLt (by omega)
    exact (htest.append htrue).append (.label hdone hzero hnothing)
  | ifElse loc cond onTrue onFalse iht ihf =>
    rw [faultsFrom, List.append_eq_nil_iff, List.append_eq_nil_iff] at hfaults
    simp only [labelHeights, marks_append, marks_cons, List.length_append,
      onTrue.length_labelHeights, cond.length_labelHeights, List.length_cons, List.length_nil,
      Nat.zero_add, ← Nat.add_assoc] at hL
    obtain ⟨⟨⟨⟨hother, hdone, -⟩, hLc⟩, hLt⟩, hLf⟩ := hL
    rw [need] at hb
    have htest := cond.flows_test hreal hfaults.1.1 hLc (b := b) (by omega) hother
    have htrue := iht hreal hs.2.1 hfaults.1.2 hLt (by omega)
    have hfalse := ihf (real_symbolsAfter hs.2.1 hreal) hs.2.2 hfaults.2 hLf (by omega)
    exact (((htest.append htrue).append (.jmp hdone hzero (.label hother hzero hnothing))).append
      hfalse).append (.label hdone hzero hnothing)
  | whileDo loc cond body ih =>
    rw [faultsFrom, List.append_eq_nil_iff] at hfaults
    simp only [labelHeights, marks_append, marks_cons, List.length_append,
      cond.length_labelHeights, List.length_cons, List.length_nil, Nat.zero_add,
      ← Nat.add_assoc] at hL
    obtain ⟨⟨⟨hagain, hdone, -⟩, hLc⟩, hLb⟩ := hL
    rw [need] at hb
    have htest := cond.flows_test hreal hfaults.1 hLc (b := b) (by omega) hdone
    have hbody := ih hreal hs.2 hfaults.2 hLb (by omega)
    have hback : Flows L b 0 [.jmp (.ofNat n), .label (.ofNat (n + 1))] 0 :=
      .jmp hagain hzero (.label hdone hzero hnothing)
    rw [codeFrom, List.append_assoc [_]]
    exact ((Flows.label hagain hzero htest).append hbody).append hback
  | doWhile loc body cond ih =>
    rw [faultsFrom, List.append_eq_nil_iff] at hfaults
    simp only [labelHeights, marks_append, marks_cons, List.length_append,
      body.length_labelHeights, List.length_cons, List.length_nil, Nat.zero_add,
      ← Nat.add_assoc] at hL
    obtain ⟨⟨⟨hagain, hdone, -⟩, hLb⟩, hLc⟩ := hL
    rw [need] at hb
    have hbody := ih hreal hs.2 hfaults.1 hLb (by omega)
    have htest := cond.flows_test (real_symbolsAfter hs.2 hreal) hfaults.2 hLc (b := b) (by omega)
      hdone
    have hback : Flows L b 0 [.jmp (.ofNat n), .label (.ofNat (n + 1))] 0 :=
      .jmp hagain hzero (.label hdone hzero hnothing)
    have hloop := ((Flows.label hagain hzero hbody).append htest).append hback
    simpa only [codeFrom, List.append_assoc, List.cons_append, List.nil_append] using hloop

/-- **Between two statements** of a block the code goes on at height zero. -/
theorem flows_between {loc : Location} {body : List (Stmt Literal)} (hreal : Γ.Real)
    (hs : (Stmt.block loc body).DeclaresReal) (hfaults : (Stmt.block loc body).faultsFrom Γ = [])
    (hL : Marks L n (Stmt.block loc body).labelHeights) (hb : (Stmt.block loc body).need ≤ b)
    (i : Nat) :
    ∃ rest, (Stmt.block loc body).codeFrom Γ n =
      (Stmt.block loc (body.take i)).codeFrom Γ n ++ rest ∧ Flows L b 0 rest 0 := by
  induction body generalizing Γ n i with
  | nil => exact ⟨[], by rw [List.take_nil, List.append_nil], .nil (Nat.zero_le b)⟩
  | cons s body ih =>
    cases i with
    | zero => exact ⟨_, rfl, Stmt.flows hreal hs hfaults hL hb⟩
    | succ i =>
      have hparts := List.append_eq_nil_iff.mp hfaults
      rw [Stmt.labelHeights, Stmt.labelHeightsAll, marks_append, s.length_labelHeights] at hL
      rw [Stmt.need, Stmt.needAll] at hb
      obtain ⟨rest, hcode, hrest⟩ := ih (Stmt.real_symbolsAfter hs.1 hreal) hs.2 hparts.2 hL.2
        (by rw [Stmt.need]; omega) i
      refine ⟨rest, ?_, hrest⟩
      simp only [Stmt.codeFrom] at hcode
      rw [List.take_succ_cons, Stmt.codeFrom, Stmt.codeFrom, Stmt.codeFromAll, Stmt.codeFromAll,
        hcode, List.append_assoc]

end

-- ---------------------------------------------------------------------------
-- Programs
-- ---------------------------------------------------------------------------

open Machine

end Cairn
