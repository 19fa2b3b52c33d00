import Cairn.Proofs.Execution

/-!
# Cairn — jumps and their labels

Labels are handed out before the parts of a construct are compiled and put into
the code behind them, and a part that is at fault leaves out some of its code.
None of that loses a label or makes up a jump: whatever the program, its code
holds every label that was handed out once, and jumps to no other. So each jump
has one place to go to.

## Main statements

* `Stmt.jumpsInto_codeFrom`   — the jumps of a statement go to its own labels.
* `Machine.runFor_resolves`   — a run in such code never misses a label.
* `Program.labels_wellFormed` — labels and jumps of a whole program.
-/

namespace Cairn

-- ---------------------------------------------------------------------------
-- Jumps of code
-- ---------------------------------------------------------------------------

namespace Code

/-- All jumps of the code go to labels from the list. -/
def JumpsInto (ids : List UInt32) (code : Code) : Prop :=
  ∀ i ∈ code, ∀ id, i.target? = some id → id ∈ ids

section

variable {ids : List UInt32}

@[simp] theorem jumpsInto_nil : JumpsInto ids [] := by
  intro i hi
  cases hi

@[simp] theorem jumpsInto_cons {i : Instruction} {code : Code} :
    JumpsInto ids (i :: code) ↔ (∀ id, i.target? = some id → id ∈ ids) ∧ JumpsInto ids code :=
  List.forall_mem_cons

theorem jumpsInto_label {id : UInt32} {code : Code} :
    JumpsInto ids (.label id :: code) ↔ JumpsInto ids code := by
  simp [Instruction.target?]

theorem jumpsInto_jmp {id : UInt32} {code : Code} :
    JumpsInto ids (.jmp id :: code) ↔ id ∈ ids ∧ JumpsInto ids code := by
  simp [Instruction.target?]

theorem jumpsInto_fjmp {id : UInt32} {code : Code} :
    JumpsInto ids (.fjmp id :: code) ↔ id ∈ ids ∧ JumpsInto ids code := by
  simp [Instruction.target?]

@[simp] theorem jumpsInto_append {c d : Code} :
    JumpsInto ids (c ++ d) ↔ JumpsInto ids c ∧ JumpsInto ids d :=
  List.forall_mem_append

theorem JumpsInto.mono {ids' : List UInt32} {code : Code} (h : JumpsInto ids code)
    (hids : ids ⊆ ids') : JumpsInto ids' code :=
  fun i hi id hid => hids (h i hi id hid)

end

/-- A label occurs among the instructions as often as among the labels. -/
theorem count_label (code : Code) (id : UInt32) :
    code.count (.label id) = (labelIds code).count id := by
  induction code with
  | nil => rfl
  | cons i rest ih =>
    cases i with
    | label other =>
      rw [labelIds_label, List.count_cons, List.count_cons, ih]
      simp
    | _ => exact (List.count_cons_of_ne (by simp)).trans ih

end Code

open Code

theorem mem_labelRange {n k : Nat} {id : UInt32} :
    id ∈ labelRange n k ↔ ∃ j, n ≤ j ∧ j < n + k ∧ UInt32.ofNat j = id := by
  rw [labelRange, List.mem_map]
  refine exists_congr fun j => ?_
  rw [List.mem_range'_1, and_assoc]

theorem ofNat_mem_labelRange {n k j : Nat} (hlow : n ≤ j) (hhigh : j < n + k) :
    UInt32.ofNat j ∈ labelRange n k :=
  mem_labelRange.mpr ⟨j, hlow, hhigh, rfl⟩

/-- The labels from zero on are the numbers below their count. -/
theorem count_labelRange {k : Nat} (h : k < UInt32.size) (id : UInt32) :
    (labelRange 0 k).count id = if id < UInt32.ofNat k then 1 else 0 := by
  have hlt : id < UInt32.ofNat k ↔ id ∈ labelRange 0 k := by
    rw [UInt32.lt_iff_toNat_lt, UInt32.toNat_ofNat_of_lt' h, mem_labelRange]
    constructor
    · intro hid
      exact ⟨id.toNat, by omega, by omega, UInt32.ofNat_toNat⟩
    · rintro ⟨j, -, hj, rfl⟩
      rw [UInt32.toNat_ofNat_of_lt' (by omega)]
      omega
  rw [(labelRange_nodup (by omega)).count]
  simp only [hlt]

-- ---------------------------------------------------------------------------
-- Jumps of compiled constructs
-- ---------------------------------------------------------------------------

theorem jumpsInto_verdict {α : Type} {ids : List UInt32} (v : Verdict α) {f : α → Code}
    (h : ∀ a, JumpsInto ids (f a)) : JumpsInto ids (v.code f) := by
  cases v with
  | ok a => exact h a
  | error ds => exact jumpsInto_nil

theorem jumpsInto_onLeft (ids : List UInt32) (w : Widening) : JumpsInto ids w.onLeft := by
  cases w <;> simp [Widening.onLeft, Instruction.target?]

theorem jumpsInto_onRight (ids : List UInt32) (w : Widening) : JumpsInto ids w.onRight := by
  cases w <;> simp [Widening.onRight, Instruction.target?]

theorem jumpsInto_instructions (ids : List UInt32) (op : BinaryOp) (ty : Ty) :
    JumpsInto ids (op.instructions ty) := by
  cases op <;> simp [BinaryOp.instructions, Instruction.target?]

section

variable {low count : Nat}

/-- The jumps of an expression go to labels that it was given. -/
theorem Expr.jumpsInto_code (e : Expr Literal) (Γ : Symbols) {n : Nat} (hlow : low ≤ n)
    (hhigh : n + e.labelCount ≤ low + count) :
    JumpsInto (labelRange low count) (e.code Γ n) := by
  induction e generalizing n with
  | literal loc value => simp [code, Instruction.target?]
  | name loc x => exact jumpsInto_verdict _ fun _ => by simp [Instruction.target?]
  | group loc inner ih => exact ih hlow hhigh
  | unary loc op operand ih =>
    refine jumpsInto_append.mpr ⟨ih hlow hhigh, jumpsInto_verdict _ fun _ => ?_⟩
    cases op <;> simp [UnaryOp.instruction, Instruction.target?]
  | binary loc op left right ihl ihr =>
    simp only [labelCount] at hhigh
    simp only [code, jumpsInto_append]
    refine ⟨⟨⟨ihl hlow (by omega), ?_⟩, ihr (by omega) (by omega)⟩, ?_⟩
    · exact jumpsInto_verdict _ fun r => jumpsInto_onLeft _ r.2
    · exact jumpsInto_verdict _ fun r => jumpsInto_append.mpr
        ⟨jumpsInto_onRight _ r.2, jumpsInto_instructions _ op r.1⟩
  | assign loc target value ih =>
    refine jumpsInto_append.mpr ⟨ih hlow hhigh, jumpsInto_verdict _ fun r => ?_⟩
    exact jumpsInto_append.mpr ⟨jumpsInto_onRight _ r.2, by simp [Instruction.target?]⟩
  | ternary loc cond onTrue onFalse ihc iht ihf =>
    simp only [labelCount] at hhigh
    have hotherwise := ofNat_mem_labelRange hlow (by omega : n < low + count)
    have hdone := ofNat_mem_labelRange (by omega : low ≤ n + 1) (by omega : _ < low + count)
    have hcond := ihc (n := n + 2) (by omega) (by omega)
    have htrue := iht (n := n + 2 + cond.labelCount) (by omega) (by omega)
    have hfalse := ihf (n := n + 2 + cond.labelCount + onTrue.labelCount) (by omega) (by omega)
    simp only [code, jumpsInto_append, jumpsInto_label, jumpsInto_jmp, jumpsInto_fjmp,
      jumpsInto_nil, hcond, htrue, hfalse, hotherwise, hdone, and_self]

theorem jumpsInto_exprsCode (exprs : List (Expr Literal)) (Γ : Symbols) {n : Nat} (hlow : low ≤ n)
    (hhigh : n + labelCounts exprs ≤ low + count) :
    JumpsInto (labelRange low count) (exprsCode Γ n exprs) := by
  induction exprs generalizing n with
  | nil => exact jumpsInto_nil
  | cons e rest ih =>
    rw [labelCounts] at hhigh
    exact jumpsInto_append.mpr
      ⟨e.jumpsInto_code Γ hlow (by omega), ih (by omega) (by omega)⟩

theorem jumpsInto_declareCodeFrom (ids : List UInt32) (ty : Ty) (Γ : Symbols)
    (names : List Ident) : JumpsInto ids (declareCodeFrom ty Γ names) := by
  induction names generalizing Γ with
  | nil => exact jumpsInto_nil
  | cons x rest ih =>
    refine jumpsInto_append.mpr ⟨?_, ih _⟩
    split
    · exact jumpsInto_nil
    · cases ty <;> simp [zeroCode, Ty.zero?, Instruction.target?]

theorem jumpsInto_readCode (ids : List UInt32) (Γ : Symbols) (names : List Ident) :
    JumpsInto ids (names.flatMap (readCode Γ)) := by
  intro i hi
  obtain ⟨x, -, hx⟩ := List.mem_flatMap.mp hi
  have hone : JumpsInto ids (readCode Γ x) := by
    rw [readCode]
    split <;> simp [Instruction.target?]
  exact hone i hx

/-- **The jumps of a statement** go to labels that it was given. -/
theorem Stmt.jumpsInto_codeFrom (s : Stmt Literal) (Γ : Symbols) {n : Nat} (hlow : low ≤ n)
    (hhigh : n + s.labelCount ≤ low + count) :
    JumpsInto (labelRange low count) (s.codeFrom Γ n) := by
  induction s using Stmt.induction generalizing Γ n with
  | empty loc => exact jumpsInto_nil
  | declaration loc ty names => exact jumpsInto_declareCodeFrom _ ty Γ names
  | expression loc e =>
    exact jumpsInto_append.mpr
      ⟨e.jumpsInto_code Γ hlow hhigh, by simp [Instruction.target?]⟩
  | read loc names => exact jumpsInto_readCode _ Γ names
  | write loc exprs =>
    exact jumpsInto_append.mpr
      ⟨jumpsInto_exprsCode exprs Γ hlow hhigh, by simp [Instruction.target?]⟩
  | blockNil loc => exact jumpsInto_nil
  | blockCons loc s rest ihs ihrest =>
    simp only [labelCount, labelCountAll] at hhigh ihrest
    exact jumpsInto_append.mpr ⟨ihs Γ hlow (by omega), ihrest _ (by omega) (by omega)⟩
  | ifThen loc cond onTrue ih =>
    simp only [labelCount] at hhigh
    have hdone := ofNat_mem_labelRange hlow (by omega : n < low + count)
    have hcond : JumpsInto (labelRange low count) (cond.code Γ (n + 1)) :=
      cond.jumpsInto_code Γ (by omega) (by omega)
    have htrue := ih Γ (n := n + 1 + cond.labelCount) (by omega) (by omega)
    simp only [codeFrom, jumpsInto_append, jumpsInto_label, jumpsInto_fjmp, jumpsInto_nil, hcond,
      htrue, hdone, and_self]
  | ifElse loc cond onTrue onFalse iht ihf =>
    simp only [labelCount] at hhigh
    have hotherwise := ofNat_mem_labelRange hlow (by omega : n < low + count)
    have hdone := ofNat_mem_labelRange (by omega : low ≤ n + 1) (by omega : _ < low + count)
    have hcond : JumpsInto (labelRange low count) (cond.code Γ (n + 2)) :=
      cond.jumpsInto_code Γ (by omega) (by omega)
    have htrue := iht Γ (n := n + 2 + cond.labelCount) (by omega) (by omega)
    have hfalse := ihf (onTrue.symbolsAfter Γ) (n := n + 2 + cond.labelCount + onTrue.labelCount)
      (by omega) (by omega)
    simp only [codeFrom, jumpsInto_append, jumpsInto_label, jumpsInto_jmp, jumpsInto_fjmp,
      jumpsInto_nil, hcond, htrue, hfalse, hotherwise, hdone, and_self]
  | whileDo loc cond body ih =>
    simp only [labelCount] at hhigh
    have hagain := ofNat_mem_labelRange hlow (by omega : n < low + count)
    have hdone := ofNat_mem_labelRange (by omega : low ≤ n + 1) (by omega : _ < low + count)
    have hcond : JumpsInto (labelRange low count) (cond.code Γ (n + 2)) :=
      cond.jumpsInto_code Γ (by omega) (by omega)
    have hbody := ih Γ (n := n + 2 + cond.labelCount) (by omega) (by omega)
    simp only [codeFrom, jumpsInto_append, jumpsInto_label, jumpsInto_jmp, jumpsInto_fjmp,
      jumpsInto_nil, hcond, hbody, hagain, hdone, and_self]
  | doWhile loc body cond ih =>
    simp only [labelCount] at hhigh
    have hagain := ofNat_mem_labelRange hlow (by omega : n < low + count)
    have hdone := ofNat_mem_labelRange (by omega : low ≤ n + 1) (by omega : _ < low + count)
    have hbody := ih Γ (n := n + 2) (by omega) (by omega)
    have hcond : JumpsInto (labelRange low count)
        (cond.code (body.symbolsAfter Γ) (n + 2 + body.labelCount)) :=
      cond.jumpsInto_code _ (by omega) (by omega)
    simp only [codeFrom, jumpsInto_append, jumpsInto_label, jumpsInto_jmp, jumpsInto_fjmp,
      jumpsInto_nil, hcond, hbody, hagain, hdone, and_self]

end

-- ---------------------------------------------------------------------------
-- Jumps of a run
-- ---------------------------------------------------------------------------

namespace Machine

/-- On a machine with this code the action leaves the code alone, and never
fails for want of the label. -/
def Spares {α : Type} (code : Code) (id : UInt32) (x : Action α) : Prop :=
  ∀ m : Machine, m.code = code →
    wp x (fun _ m' => m'.code = code) (fun f _ => f ≠ .unresolvedLabel id) m

namespace Spares

variable {α β : Type} {code : Code} {id : UInt32}

theorem bind {x : Action α} {g : α → Action β} (hx : Spares code id x)
    (hg : ∀ a, Spares code id (g a)) : Spares code id (x >>= g) :=
  fun m hm => wp_bind.mpr ((hx m hm).mono hg fun _ _ hf => hf)

theorem pure (a : α) : Spares code id (Pure.pure a) := fun _ hm => hm

theorem throw {f : Fault} (hf : f ≠ .unresolvedLabel id) :
    Spares code id (MonadExcept.throw f : Action α) := fun _ _ => hf

theorem get : Spares code id (MonadState.get : Action Machine) := fun _ hm => hm

theorem push (v : Value) : Spares code id (Machine.push v) := by
  intro m hm
  rw [wp_push]
  cases hpush : m.stack.push v with
  | ok stack => exact hm
  | error f =>
    rw [Stack.push] at hpush
    split at hpush <;> cases hpush
    simp

theorem pop : Spares code id Machine.pop := by
  intro m hm
  rw [wp_pop]
  cases hpop : m.stack.pop with
  | ok result => exact hm
  | error f =>
    rw [Stack.pop] at hpop
    split at hpop <;> cases hpop
    simp

theorem popMany (n : Nat) : Spares code id (Machine.popMany n) := by
  intro m hm
  rw [wp_popMany]
  cases hpop : m.stack.popMany n with
  | ok result => exact hm
  | error f =>
    rw [Stack.popMany] at hpop
    split at hpop <;> cases hpop
    simp

theorem write (text : String) : Spares code id (Machine.write text) := fun _ hm => hm

theorem save (x : String) (v : Value) :
    Spares code id (modify fun m : Machine => { m with store := m.store.insert x v }) :=
  fun _ hm => hm

/-- Looking for a label that the code has, or for another one. -/
theorem resolve {other : UInt32} (h : other = id → (labelIndex? code id).isSome) :
    Spares code id (Machine.resolve other) := by
  intro m hm
  rw [wp_resolve]
  split
  · exact hm
  · next hnone =>
    intro heq
    cases heq
    have hsome := h rfl
    rw [← hm, hnone] at hsome
    cases hsome

theorem readLine : Spares code id Machine.readLine := by
  intro m hm
  rw [readLine_eq, wp_bind, wp_get]
  split
  · simp [wp_throw]
  · rw [wp_bind, wp_set]
    cases ofUtf8? (takeLine m.input).1 with
    | some text => exact hm
    | none => simp [lineChars, wp_throw]

theorem readValue (tag : Tag) : Spares code id (Machine.readValue tag) := by
  have hvalue : Spares code id (Machine.readLine >>= lineValue tag) := by
    refine bind readLine fun line => ?_
    rw [lineValue]
    cases Value.ofLine? tag line with
    | some v => exact pure v
    | none => exact throw (by simp)
  rw [readValue_eq]
  refine bind get fun m => ?_
  split
  · exact bind (write _) fun _ => hvalue
  · exact hvalue

theorem pushResult (next : Nat) {result : Except Fault Value}
    (hresult : ∀ f, result = .error f → f.isOperand) :
    Spares code id (Machine.pushResult next result) := by
  cases result with
  | ok v => exact bind (push v) fun _ => pure next
  | error f =>
    refine throw ?_
    rintro rfl
    cases hresult _ rfl

end Spares

/-- An instruction misses no label that the code has. -/
theorem execute_spares {code : Code} {id : UInt32} {i : Instruction}
    (h : i.target? = some id → (labelIndex? code id).isSome) (next : Nat) :
    Spares code id (execute next i) := by
  cases i with
  | push v => exact .bind (.push v) fun _ => .pure _
  | pop => exact .bind .pop fun _ => .pure _
  | load x =>
    refine .bind .get fun m => ?_
    cases m.store.find? x with
    | some v => exact .bind (.push v) fun _ => .pure _
    | none => exact .throw (by simp)
  | save x => exact .bind .pop fun v => .bind (.save x v) fun _ => .pure _
  | label other => exact .pure _
  | jmp other => exact .resolve fun heq => h (congrArg some heq)
  | fjmp other =>
    refine .bind .pop fun v => ?_
    split
    · exact .pure _
    · exact .resolve fun heq => h (congrArg some heq)
    · exact .throw (by simp [Fault.ofOperand])
  | print count => exact .bind (.popMany _) fun _ => .bind (.write _) fun _ => .pure _
  | read tag => exact .bind (.readValue tag) fun _ => .bind (.push _) fun _ => .pure _
  | unary op =>
    rw [execute_unary]
    exact .bind .pop fun v => .pushResult next fun f => isOperand_of_unary
  | binary op =>
    rw [execute_binary]
    exact .bind .pop fun b => .bind .pop fun a => .pushResult next fun f => isOperand_of_binary

section

variable {m m' : Machine}

/-- One step keeps the code, and does not miss a label if all jumps of the code
go to labels of the code. -/
theorem step_resolves (h : JumpsInto (labelIds m.code) m.code) (id : UInt32) :
    m.step.1.code = m.code ∧ m.step.2 ≠ .failed (.unresolvedLabel id) := by
  have hfound : ∀ {i}, m.code[m.ip]? = some i → i.target? = some id →
      (labelIndex? m.code id).isSome := by
    intro i hi htarget
    have hlabel := mem_labelIds.mp (h i (List.mem_of_getElem? hi) id htarget)
    rw [labelIndex?, List.findIdx?_isSome, List.any_eq_true]
    exact ⟨.label id, hlabel, by simp⟩
  have hcases := step_cases m
  generalize m.step = r at hcases
  cases hcases with
  | halted hi => exact ⟨rfl, by simp⟩
  | limited hi hlimit => exact ⟨rfl, by simp⟩
  | executed hi hlimit hrun =>
    have hspares := execute_spares (hfound hi) (m.ip + 1) { m with steps := m.steps + 1 } rfl
    have hcode := hspares.of_ok hrun
    exact ⟨hcode, by simp⟩
  | failed hi hlimit hrun =>
    have hspares := execute_spares (hfound hi) (m.ip + 1) { m with steps := m.steps + 1 } rfl
    have hapart : Apart Machine.code := ⟨fun _ _ => rfl, fun _ _ => rfl, fun _ _ => rfl⟩
    have hkeeps := (execute_keeps Machine.code hapart _ _ _).of_error hrun
    exact ⟨hkeeps.1, by simpa using hspares.of_error hrun⟩

/-- **A run misses no label** if all jumps of its code go to labels of the code. -/
theorem runFor_resolves (h : JumpsInto (labelIds m.code) m.code) (n : Nat) (id : UInt32) :
    (m.runFor n).2 ≠ some (.failed (.unresolvedLabel id)) := by
  induction n generalizing m with
  | zero => simp [runFor]
  | succ n ih =>
    obtain ⟨hcode, hstep⟩ := step_resolves h id
    rcases hresult : m.step with ⟨next, result⟩
    rw [hresult] at hcode hstep
    cases result with
    | executed =>
      rw [runFor_of_executed hresult]
      exact ih (by rw [hcode]; exact h)
    | halted =>
      rw [runFor_of_halted hresult]
      simp
    | failed f =>
      rw [runFor_of_failed hresult]
      simpa using hstep

end

end Machine

-- ---------------------------------------------------------------------------
-- Labels and jumps of a program
-- ---------------------------------------------------------------------------

/-- **Labels are well formed**, whether the program checks or not. Each label
that was handed out occurs once in the code, and no other label does. Every jump
goes to one of them, so that looking up the label finds its only occurrence and
no run misses a label. -/
theorem Program.labels_wellFormed {program : Program}
    (h : program.asBlock.labelCount < UInt32.size) :
    program.compile.nextLabel.toNat = program.asBlock.labelCount ∧
    (∀ id, program.compile.code.count (.label id) =
      if id < program.compile.nextLabel then 1 else 0) ∧
    (∀ i ∈ program.compile.code, ∀ id, i.target? = some id → id < program.compile.nextLabel) ∧
    (∀ id, id < program.compile.nextLabel → ∃ k, labelIndex? program.compile.code id = some k ∧
      ∀ j, program.compile.code[j]? = some (.label id) ↔ j = k) ∧
    ∀ options input n id,
      ((Machine.start program.compile.code options input).runFor n).2 ≠
        some (.failed (.unresolvedLabel id)) := by
  have hnext : program.compile.nextLabel = UInt32.ofNat program.asBlock.labelCount := by
    have hstart := Emitter.extend_nextLabel .start (program.asBlock.codeFrom .empty 0)
      program.asBlock.labelCount (program.asBlock.faultsFrom .empty) (n := 0) rfl
    rw [Nat.zero_add] at hstart
    rw [compile_eq, ← hstart]
    rfl
  have hcode : program.compile.code = program.asBlock.codeFrom .empty 0 := by
    rw [compile_eq]
    rfl
  have hlabels : (labelIds program.compile.code).Perm
      (labelRange 0 program.asBlock.labelCount) := by
    rw [hcode]
    exact program.asBlock.labelIds_codeFrom .empty 0
  have hjumps : JumpsInto (labelRange 0 program.asBlock.labelCount) program.compile.code := by
    rw [hcode]
    exact program.asBlock.jumpsInto_codeFrom .empty (Nat.le_refl 0) (Nat.le_refl _)
  have hbelow : ∀ id, id ∈ labelIds program.compile.code ↔ id < program.compile.nextLabel := by
    intro id
    rw [hlabels.mem_iff, hnext, ← List.count_pos_iff, count_labelRange h]
    split <;> simp_all
  have hinto : JumpsInto (labelIds program.compile.code) program.compile.code :=
    hjumps.mono hlabels.symm.subset
  refine ⟨?_, fun id => ?_, fun i hi id hid => ?_, fun id hid => ?_, fun options input n id => ?_⟩
  · rw [hnext, UInt32.toNat_ofNat_of_lt' h]
  · rw [count_label, hlabels.count_eq, count_labelRange h, hnext]
  · exact (hbelow id).mp (hinto i hi id hid)
  · obtain ⟨k, hk⟩ := List.mem_iff_getElem?.mp (mem_labelIds.mp ((hbelow id).mpr hid))
    have hfind : ∀ {j}, program.compile.code[j]? = some (.label id) →
        labelIndex? program.compile.code id = some j :=
      labelIndex?_of_nodup (labelIds_nodup (Nat.le_of_lt h))
    refine ⟨k, hfind hk, fun j => ⟨fun hj => ?_, fun hj => hj ▸ hk⟩⟩
    exact Option.some.inj ((hfind hj).symm.trans (hfind hk))
  · exact Machine.runFor_resolves hinto n id

/-- A loop around a choice around a loop, where the value of the ternary, the
condition of the choice and both conditions of the loops do not check. -/
def illTypedNest : Program :=
  let loc : Location := .between { } { }
  let x : Expr Literal := .name loc "x"
  let one : Expr Literal := .literal loc (.int 1)
  let chosen : Expr Literal := .ternary loc (.binary loc .lt x one) one (.literal loc (.str "s"))
  [.declaration loc .int [⟨"x", loc⟩],
    .whileDo loc (.binary loc .and x (.binary loc .gt x one))
      (.ifElse loc (.name loc "missing")
        (.expression loc (.assign loc ⟨"x", loc⟩ chosen))
        (.doWhile loc (.block loc [.write loc [x]]) x))]

theorem Program.labels_wellFormed_illTypedNest :
    illTypedNest.compile.diagnostics.length = 4 ∧ illTypedNest.compile.nextLabel = 8 ∧
      illTypedNest.compile.code.count (.label 7) = 1 ∧
      illTypedNest.compile.code.count (.label 8) = 0 ∧
      .jmp 3 ∈ illTypedNest.compile.code ∧
      (∃ k, labelIndex? illTypedNest.compile.code 3 = some k ∧
        ∀ j, illTypedNest.compile.code[j]? = some (.label 3) ↔ j = k) ∧
      ∀ n id, ((Machine.start illTypedNest.compile.code { } []).runFor n).2 ≠
        some (.failed (.unresolvedLabel id)) := by
  have hcount : illTypedNest.asBlock.labelCount < UInt32.size := by decide +kernel
  obtain ⟨-, hlabels, htargets, hindex, hruns⟩ := labels_wellFormed hcount
  have hnext : illTypedNest.compile.nextLabel = 8 := by decide +kernel
  have hjump : Instruction.jmp 3 ∈ illTypedNest.compile.code := by decide +kernel
  refine ⟨by decide +kernel, hnext, ?_, ?_, hjump, hindex 3 (htargets _ hjump 3 rfl), hruns { } []⟩
  · rw [hlabels, hnext]
    decide
  · rw [hlabels, hnext]
    decide

end Cairn
