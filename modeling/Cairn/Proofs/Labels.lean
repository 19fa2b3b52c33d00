import Cairn.Proofs.Statement

/-!
# Cairn — labels

The code of a construct that takes `k` labels and numbers them from `n` on
holds each of `n`, …, `n + k - 1` exactly once, whether it checks or not. So in
a program with fewer labels than there are numbers for them, a jump to a label
goes to the one place where that label stands.

## Main statements

* `Stmt.labelIds_codeFrom`     — the labels in the code of a statement.
* `Program.labelIds_nodup`     — no label occurs twice in the code of a program.
* `Code.labelIndex?_of_nodup`  — a label that occurs once is found where it stands.
-/

namespace Cairn

-- ---------------------------------------------------------------------------
-- Labels of code
-- ---------------------------------------------------------------------------

/-- The label that an instruction is. -/
def Instruction.labelId? : Instruction → Option UInt32
  | .label id => some id
  | _ => none

namespace Code

/-- The labels of a piece of code, with repetitions. -/
def labelIds (code : Code) : List UInt32 :=
  code.filterMap Instruction.labelId?

@[simp] theorem labelIds_nil : labelIds [] = [] := rfl

@[simp] theorem labelIds_append (c d : Code) : labelIds (c ++ d) = labelIds c ++ labelIds d :=
  List.filterMap_append

@[simp] theorem labelIds_label (id : UInt32) (c : Code) :
    labelIds (.label id :: c) = id :: labelIds c := rfl

@[simp] theorem labelIds_jmp (id : UInt32) (c : Code) :
    labelIds (.jmp id :: c) = labelIds c := rfl

@[simp] theorem labelIds_fjmp (id : UInt32) (c : Code) :
    labelIds (.fjmp id :: c) = labelIds c := rfl

theorem mem_labelIds {code : Code} {id : UInt32} : id ∈ labelIds code ↔ .label id ∈ code := by
  rw [labelIds, List.mem_filterMap]
  constructor
  · rintro ⟨i, hi, hid⟩
    cases i <;> cases hid
    exact hi
  · intro h
    exact ⟨.label id, h, rfl⟩

/-- A label that occurs once is found where it stands. -/
theorem labelIndex?_of_nodup {code : Code} (h : (labelIds code).Nodup) {k : Nat} {id : UInt32}
    (hk : code[k]? = some (.label id)) : labelIndex? code id = some k := by
  obtain ⟨hlt, hget⟩ := List.getElem?_eq_some_iff.mp hk
  have hsplit : code = code.take k ++ .label id :: code.drop (k + 1) := by
    rw [← hget, List.getElem_cons_drop, List.take_append_drop]
  have hfront : id ∉ labelIds (code.take k) := by
    intro hmem
    rw [hsplit, labelIds_append, labelIds_label] at h
    exact (List.nodup_append.mp h).2.2 id hmem id List.mem_cons_self rfl
  rw [labelIndex?, List.findIdx?_eq_some_iff_getElem]
  refine ⟨hlt, by simp [hget], fun j hj heq => hfront ?_⟩
  rw [mem_labelIds, ← eq_of_beq heq]
  exact List.mem_take_iff_getElem.mpr ⟨j, by omega, rfl⟩

end Code

/-- The numbers of `k` labels from `n` on. -/
def labelRange (n k : Nat) : List UInt32 :=
  (List.range' n k).map UInt32.ofNat

theorem labelRange_add (n j k : Nat) :
    labelRange n (j + k) = labelRange n j ++ labelRange (n + j) k := by
  rw [labelRange, ← List.range'_append_1, List.map_append]
  rfl

theorem labelRange_one (n : Nat) : labelRange n 1 = [.ofNat n] := rfl

theorem labelRange_two (n : Nat) : labelRange n 2 = [.ofNat n, .ofNat (n + 1)] := rfl

theorem labelRange_nodup {n k : Nat} (h : n + k ≤ UInt32.size) : (labelRange n k).Nodup := by
  rw [labelRange, List.Nodup, List.pairwise_map]
  refine List.Pairwise.imp_of_mem ?_ (List.nodup_range' : (List.range' n k).Nodup)
  intro a b ha hb hne heq
  rw [List.mem_range'_1] at ha hb
  have hnat := congrArg UInt32.toNat heq
  rw [UInt32.toNat_ofNat_of_lt' (by omega), UInt32.toNat_ofNat_of_lt' (by omega)] at hnat
  exact hne hnat

-- ---------------------------------------------------------------------------
-- Labels of compiled constructs
-- ---------------------------------------------------------------------------

open Code

@[simp] theorem labelIds_onLeft (w : Widening) : labelIds w.onLeft = [] := by
  cases w <;> rfl

@[simp] theorem labelIds_onRight (w : Widening) : labelIds w.onRight = [] := by
  cases w <;> rfl

@[simp] theorem labelIds_instructions (op : BinaryOp) (ty : Ty) :
    labelIds (op.instructions ty) = [] := by
  cases op <;> rfl

theorem labelIds_verdict {α : Type} (v : Verdict α) {f : α → Code}
    (h : ∀ a, labelIds (f a) = []) : labelIds (v.code f) = [] := by
  cases v with
  | ok a => exact h a
  | error ds => rfl

/-- **Labels of an expression**: each number it was given, once. -/
theorem Expr.labelIds_code (e : Expr Literal) (Γ : Symbols) (n : Nat) :
    (labelIds (e.code Γ n)).Perm (labelRange n e.labelCount) := by
  induction e generalizing n with
  | literal loc value => exact .refl _
  | name loc x =>
    rw [code, labelIds_verdict _ fun _ => rfl]
    exact .refl _
  | group loc inner ih => exact ih n
  | unary loc op operand ih =>
    have hop : labelIds [op.instruction] = [] := by cases op <;> rfl
    rw [code, labelIds_append, labelIds_verdict _ fun _ => hop, List.append_nil]
    exact ih n
  | binary loc op left right ihl ihr =>
    simp only [code, labelIds_append]
    rw [labelIds_verdict _ fun _ => labelIds_onLeft _, labelIds_verdict _ fun _ => by simp,
      List.append_nil, List.append_nil, labelCount, labelRange_add]
    exact (ihl n).append (ihr (n + left.labelCount))
  | assign loc target value ih =>
    rw [code, labelIds_append, labelIds_verdict _ fun _ => by simp; rfl, List.append_nil]
    exact ih n
  | ternary loc cond onTrue onFalse ihc iht ihf =>
    rw [List.perm_iff_count]
    intro id
    simp only [code, labelCount, labelIds_append, labelIds_label, labelIds_fjmp, labelIds_jmp,
      labelIds_nil, labelRange_add, labelRange_two, List.count_append, List.count_cons,
      List.count_nil, (ihc _).count_eq, (iht _).count_eq, (ihf _).count_eq, Nat.add_assoc]
    omega

theorem labelIds_exprsCode (exprs : List (Expr Literal)) (Γ : Symbols) (n : Nat) :
    (labelIds (exprsCode Γ n exprs)).Perm (labelRange n (labelCounts exprs)) := by
  induction exprs generalizing n with
  | nil => exact .refl _
  | cons e rest ih =>
    rw [exprsCode, labelIds_append, labelCounts, labelRange_add]
    exact (e.labelIds_code Γ n).append (ih (n + e.labelCount))

theorem labelIds_flatMap {α : Type} {f : α → Code} (h : ∀ a, labelIds (f a) = []) (l : List α) :
    labelIds (l.flatMap f) = [] := by
  induction l with
  | nil => rfl
  | cons a rest ih => rw [List.flatMap_cons, labelIds_append, h, ih, List.append_nil]

theorem labelIds_declareCodeFrom (ty : Ty) (Γ : Symbols) (names : List Ident) :
    labelIds (declareCodeFrom ty Γ names) = [] := by
  have hzero : ∀ x, labelIds (zeroCode ty x) = [] := by
    intro x
    cases ty <;> rfl
  induction names generalizing Γ with
  | nil => rfl
  | cons x rest ih =>
    rw [declareCodeFrom, labelIds_append, ih, List.append_nil]
    cases Γ.find? x.name with
    | some old => rfl
    | none => exact hzero x

theorem labelIds_readCode (Γ : Symbols) (x : Ident) : labelIds (readCode Γ x) = [] := by
  rw [readCode]
  cases readTag? Γ x <;> rfl

/-- **Labels of a statement**: each number it was given, once. -/
theorem Stmt.labelIds_codeFrom (s : Stmt Literal) (Γ : Symbols) (n : Nat) :
    (labelIds (s.codeFrom Γ n)).Perm (labelRange n s.labelCount) := by
  induction s using Stmt.induction generalizing Γ n with
  | empty loc => exact .refl _
  | declaration loc ty names =>
    rw [codeFrom, labelIds_declareCodeFrom]
    exact .refl _
  | expression loc e =>
    rw [codeFrom, labelIds_append]
    exact (List.append_nil _).symm ▸ e.labelIds_code Γ n
  | read loc names =>
    rw [codeFrom, labelIds_flatMap (labelIds_readCode Γ)]
    exact .refl _
  | write loc exprs =>
    rw [codeFrom, labelIds_append]
    exact (List.append_nil _).symm ▸ labelIds_exprsCode exprs Γ n
  | blockNil loc => exact .refl _
  | blockCons loc s rest ihs ihrest =>
    rw [codeFrom, codeFromAll, labelIds_append, labelCount, labelCountAll, labelRange_add]
    exact (ihs Γ n).append (ihrest (s.symbolsAfter Γ) (n + s.labelCount))
  | ifThen loc cond onTrue ih =>
    rw [List.perm_iff_count]
    intro id
    simp only [codeFrom, labelCount, labelIds_append, labelIds_label, labelIds_fjmp,
      labelIds_nil, labelRange_add, labelRange_one, List.count_append, List.count_cons,
      List.count_nil, (cond.labelIds_code _ _).count_eq, (ih _ _).count_eq, Nat.add_assoc]
    omega
  | ifElse loc cond onTrue onFalse iht ihf =>
    rw [List.perm_iff_count]
    intro id
    simp only [codeFrom, labelCount, labelIds_append, labelIds_label, labelIds_fjmp,
      labelIds_jmp, labelIds_nil, labelRange_add, labelRange_two, List.count_append,
      List.count_cons, List.count_nil, (cond.labelIds_code _ _).count_eq, (iht _ _).count_eq,
      (ihf _ _).count_eq, Nat.add_assoc]
    omega
  | whileDo loc cond body ih =>
    rw [List.perm_iff_count]
    intro id
    simp only [codeFrom, labelCount, labelIds_append, labelIds_label, labelIds_fjmp,
      labelIds_jmp, labelIds_nil, labelRange_add, labelRange_two, List.count_append,
      List.count_cons, List.count_nil, (cond.labelIds_code _ _).count_eq, (ih _ _).count_eq,
      Nat.add_assoc]
    omega
  | doWhile loc body cond ih =>
    rw [List.perm_iff_count]
    intro id
    simp only [codeFrom, labelCount, labelIds_append, labelIds_label, labelIds_fjmp,
      labelIds_jmp, labelIds_nil, labelRange_add, labelRange_two, List.count_append,
      List.count_cons, List.count_nil, (cond.labelIds_code _ _).count_eq, (ih _ _).count_eq,
      Nat.add_assoc]
    omega

/-- No label occurs twice in the code of a program. -/
theorem Program.labelIds_nodup {program : Program}
    (h : program.asBlock.labelCount ≤ UInt32.size) : (labelIds program.compile.code).Nodup := by
  have hcode : program.compile.code = program.asBlock.codeFrom .empty 0 := by
    rw [compile_eq]
    rfl
  rw [hcode, (program.asBlock.labelIds_codeFrom .empty 0).nodup_iff]
  exact labelRange_nodup (by omega)

end Cairn
