import Cairn.Proofs.Limits

/-!
# Cairn — bounds that no code can break

Code need not come from a compiler. It may jump to a label that is not there, or
that is there twice or at the very end, and it may take operands from an empty
stack. Nor does a failure end the life of a machine: it can be stepped and run
again, from where it stands and with the operands of the failed instruction gone.
Whatever is asked of it, it stays inside its code and within its limits, and once
it has come to the end of its code it does not change any more.

## Main definitions

* `Machine.Call`, `Machine.after` — all that can be asked of a machine.
* `Machine.Confined`              — the bounds.

## Main statements

* `Machine.execute_stays`   — no instruction breaks the bounds, whether it fails or not.
* `Machine.Confined.step`, `Machine.Confined.runFor` — nor does a step or a run.
* `Machine.confined_forever` — what follows for a machine that has just been started.
-/

namespace Cairn

-- ---------------------------------------------------------------------------
-- Stacks within their limit
-- ---------------------------------------------------------------------------

namespace Stack

variable {α : Type} {limit : Nat} {s t : Stack α}

/-- The stack has the given limit and keeps to it. -/
structure Within (limit : Nat) (s : Stack α) : Prop where
  limit_eq : s.limit = limit
  depth_le : s.depth ≤ limit

theorem within_empty (limit : Nat) : (empty limit : Stack α).Within limit :=
  ⟨rfl, Nat.zero_le limit⟩

theorem Within.push (h : s.Within limit) {a : α} (hpush : s.push a = .ok t) : t.Within limit := by
  have hlimit := h.limit_eq
  unfold Stack.push at hpush
  split at hpush
  · cases hpush
  · cases hpush
    refine ⟨hlimit, ?_⟩
    show s.items.length + 1 ≤ limit
    unfold depth at *
    omega

theorem Within.pop (h : s.Within limit) {a : α} (hpop : s.pop = .ok (a, t)) : t.Within limit := by
  have hdepth := h.depth_le
  unfold Stack.pop at hpop
  split at hpop
  · cases hpop
  · next hitems =>
    cases hpop
    refine ⟨h.limit_eq, ?_⟩
    rw [depth, hitems] at hdepth
    exact Nat.le_of_succ_le hdepth

theorem Within.popMany (h : s.Within limit) {n : Nat} {as : List α}
    (hpop : s.popMany n = .ok (as, t)) : t.Within limit := by
  unfold Stack.popMany at hpop
  split at hpop
  · cases hpop
  · cases hpop
    refine ⟨h.limit_eq, Nat.le_trans ?_ h.depth_le⟩
    show (s.items.drop n).length ≤ s.items.length
    rw [List.length_drop]
    exact Nat.sub_le _ _

end Stack

theorem Code.labelIndex?_lt {code : Code} {id : UInt32} {index : Nat}
    (h : labelIndex? code id = some index) : index < code.length :=
  (List.findIdx?_eq_some_iff_findIdx_eq.mp h).1

namespace Machine

-- ---------------------------------------------------------------------------
-- Calls
-- ---------------------------------------------------------------------------

/-- What can be asked of a machine. -/
inductive Call where
  /-- To execute one instruction. -/
  | step
  /-- To run. The machine is looked at when the run ends, or else when it has gone
  on for `n` instructions. -/
  | run (n : Nat)

/-- The machine that a call leaves, successful or not. -/
def call (m : Machine) : Call → Machine
  | .step => m.step.1
  | .run n => (m.runFor n).1

/-- The machine behind calls made one after the other. -/
def after (m : Machine) (calls : List Call) : Machine :=
  calls.foldl call m

/-- A machine for this code and these options that is inside its code and within
its limits. -/
structure Confined (code : Code) (options : Options) (m : Machine) : Prop where
  code_eq : m.code = code
  options_eq : m.options = options
  ip_le : m.ip ≤ code.length
  stack_within : m.stack.Within options.maxStack
  steps_le : ∀ limit, options.maxSteps = some limit → m.steps ≤ limit

theorem confined_start (code : Code) (options : Options) (input : List UInt8) :
    Confined code options (start code options input) :=
  ⟨rfl, rfl, Nat.zero_le _, Stack.within_empty _, fun _ _ => Nat.zero_le _⟩

-- ---------------------------------------------------------------------------
-- Instructions
-- ---------------------------------------------------------------------------

/-- However the action ends, a confined machine stays confined; and if the action
succeeds, its result satisfies `Q`. -/
def Stays {α : Type} (code : Code) (options : Options) (Q : α → Prop) (x : Action α) : Prop :=
  ∀ m : Machine, m.Confined code options →
    wp x (fun a m' => Q a ∧ m'.Confined code options) (fun _ m' => m'.Confined code options) m

namespace Stays

variable {α β : Type} {code : Code} {options : Options} {Q : α → Prop} {R : β → Prop}

theorem bind {x : Action α} {g : α → Action β} (hx : Stays code options Q x)
    (hg : ∀ a, Q a → Stays code options R (g a)) : Stays code options R (x >>= g) :=
  fun m hm => wp_bind.mpr ((hx m hm).mono (fun a n hn => hg a hn.1 n hn.2) fun _ _ hn => hn)

theorem pure {a : α} (h : Q a) : Stays code options Q (Pure.pure a) :=
  fun _ hm => ⟨h, hm⟩

theorem throw (f : Fault) : Stays code options Q (MonadExcept.throw f : Action α) :=
  fun _ hm => hm

theorem get : Stays code options (fun _ => True) (MonadState.get : Action Machine) :=
  fun _ hm => ⟨trivial, hm⟩

/-- A change that breaks no bound. -/
theorem modify {f : Machine → Machine}
    (h : ∀ m, m.Confined code options → (f m).Confined code options) :
    Stays code options (fun _ => True) (modify f) :=
  fun m hm => ⟨trivial, h m hm⟩

theorem push (v : Value) : Stays code options (fun _ => True) (Machine.push v) := by
  intro m hm
  rw [wp_push]
  cases hpush : m.stack.push v with
  | ok stack => exact ⟨trivial, { hm with stack_within := hm.stack_within.push hpush }⟩
  | error f => exact hm

theorem pop : Stays code options (fun _ => True) Machine.pop := by
  intro m hm
  rw [wp_pop]
  cases hpop : m.stack.pop with
  | ok result => exact ⟨trivial, { hm with stack_within := hm.stack_within.pop hpop }⟩
  | error f => exact hm

theorem popMany (n : Nat) : Stays code options (fun _ => True) (Machine.popMany n) := by
  intro m hm
  rw [wp_popMany]
  cases hpop : m.stack.popMany n with
  | ok result => exact ⟨trivial, { hm with stack_within := hm.stack_within.popMany hpop }⟩
  | error f => exact hm

theorem write (text : String) : Stays code options (fun _ => True) (Machine.write text) :=
  modify fun _ hm => { hm with }

/-- The address behind a label is at most the end of the code. -/
theorem resolve (id : UInt32) :
    Stays code options (· ≤ code.length) (Machine.resolve id) := by
  intro m hm
  rw [wp_resolve]
  cases hindex : Code.labelIndex? m.code id with
  | some index =>
    rw [hm.code_eq] at hindex
    exact ⟨Code.labelIndex?_lt hindex, hm⟩
  | none => exact hm

theorem readLine : Stays code options (fun _ => True) Machine.readLine := by
  intro m hm
  rw [readLine_eq, wp_bind, wp_get]
  split
  · exact hm
  · rw [wp_bind, wp_set]
    have hread : Confined code options { m with input := (takeLine m.input).2 } := { hm with }
    cases ofUtf8? (takeLine m.input).1 with
    | some text => exact ⟨trivial, hread⟩
    | none => exact hread

theorem readValue (tag : Tag) : Stays code options (fun _ => True) (Machine.readValue tag) := by
  have hvalue : Stays code options (fun _ => True) (Machine.readLine >>= lineValue tag) := by
    refine bind readLine fun line _ => ?_
    rw [lineValue]
    cases Value.ofLine? tag line with
    | some v => exact pure trivial
    | none => exact throw _
  rw [readValue_eq]
  refine bind get fun m _ => ?_
  split
  · exact bind (write _) fun _ _ => hvalue
  · exact hvalue

theorem pushResult {next : Nat} (hnext : next ≤ code.length) (result : Except Fault Value) :
    Stays code options (· ≤ code.length) (Machine.pushResult next result) := by
  cases result with
  | ok v => exact bind (push v) fun _ _ => pure hnext
  | error f => exact throw f

end Stays

variable {code : Code} {options : Options} {m n : Machine}

/-- **No instruction breaks the bounds**, and none leads out of the code. -/
theorem execute_stays {next : Nat} (hnext : next ≤ code.length) (i : Instruction) :
    Stays code options (· ≤ code.length) (execute next i) := by
  cases i with
  | push v => exact .bind (.push v) fun _ _ => .pure hnext
  | pop => exact .bind .pop fun _ _ => .pure hnext
  | load x =>
    refine .bind .get fun m _ => ?_
    cases m.store.find? x with
    | some v => exact .bind (.push v) fun _ _ => .pure hnext
    | none => exact .throw _
  | save x =>
    exact .bind .pop fun v _ => .bind (.modify fun _ hm => { hm with }) fun _ _ => .pure hnext
  | label id => exact .pure hnext
  | jmp id => exact .resolve id
  | fjmp id =>
    refine .bind .pop fun v _ => ?_
    split
    · exact .pure hnext
    · exact .resolve id
    · exact .throw _
  | print count => exact .bind (.popMany _) fun _ _ => .bind (.write _) fun _ _ => .pure hnext
  | read tag => exact .bind (.readValue tag) fun v _ => .bind (.push v) fun _ _ => .pure hnext
  | unary op =>
    rw [execute_unary]
    exact .bind .pop fun v _ => .pushResult hnext _
  | binary op =>
    rw [execute_binary]
    exact .bind .pop fun right _ => .bind .pop fun left _ => .pushResult hnext _

-- ---------------------------------------------------------------------------
-- Steps, runs and calls
-- ---------------------------------------------------------------------------

namespace Confined

/-- Where a step is allowed, it can be counted. -/
theorem counted (h : m.Confined code options) (hlimit : m.limitReached = none) :
    Confined code options { m with steps := m.steps + 1 } := by
  refine { h with steps_le := fun limit hmax => ?_ }
  rw [← h.options_eq] at hmax
  exact limitReached_eq_none.mp hlimit limit hmax

/-- **A step keeps to the bounds**, also one that fails. -/
theorem step (h : m.Confined code options) : m.step.1.Confined code options := by
  have hstays : ∀ {i : Instruction}, m.code[m.ip]? = some i →
      Stays code options (· ≤ code.length) (execute (m.ip + 1) i) := by
    intro i hi
    obtain ⟨hinside, -⟩ := List.getElem?_eq_some_iff.mp hi
    rw [h.code_eq] at hinside
    exact execute_stays hinside i
  have hcases := step_cases m
  generalize m.step = result at hcases
  cases hcases with
  | halted => exact h
  | limited => exact h
  | executed hi hlimit hrun =>
    obtain ⟨hnext, hleft⟩ := (hstays hi _ (h.counted hlimit)).of_ok hrun
    exact { hleft with ip_le := hnext }
  | failed hi hlimit hrun => exact (hstays hi _ (h.counted hlimit)).of_error hrun

/-- **A run keeps to the bounds**, wherever it is looked at. -/
theorem runFor (h : m.Confined code options) (k : Nat) :
    (m.runFor k).1.Confined code options := by
  induction k generalizing m with
  | zero => exact h
  | succ k ih =>
    have hnext := h.step
    rcases hstep : m.step with ⟨n, result⟩
    rw [hstep] at hnext
    cases result with
    | executed =>
      rw [runFor_of_executed hstep]
      exact ih hnext
    | halted =>
      rw [runFor_of_halted hstep]
      exact hnext
    | failed f =>
      rw [runFor_of_failed hstep]
      exact hnext

theorem after (h : m.Confined code options) (calls : List Call) :
    (m.after calls).Confined code options := by
  induction calls generalizing m with
  | nil => exact h
  | cons c rest ih =>
    cases c with
    | step => exact ih h.step
    | run k => exact ih (h.runFor k)

/-- A machine that is inside its code halts at the end of the code only. -/
theorem halted_iff (h : m.Confined code options) :
    m.step.2 = .halted ↔ m.ip = code.length := by
  have hend : m.code[m.ip]? = none ↔ m.ip = code.length := by
    rw [List.getElem?_eq_none_iff, h.code_eq]
    have hle := h.ip_le
    omega
  rw [← hend]
  constructor
  · intro hresult
    exact (step_halted (Prod.ext rfl hresult)).2
  · intro hi
    rw [step_of_end hi]

end Confined

/-- Nothing changes a machine that has halted. -/
theorem after_halted (h : m.step.2 = .halted) (calls : List Call) : m.after calls = m := by
  have hstep : m.step = (m, .halted) := step_of_end (step_halted (Prod.ext rfl h)).2
  have hcall : ∀ c : Call, m.call c = m := by
    intro c
    cases c with
    | step => exact congrArg Prod.fst hstep
    | run k =>
      cases k with
      | zero => rfl
      | succ k => exact congrArg Prod.fst (runFor_of_halted hstep k)
  induction calls with
  | nil => rfl
  | cons c rest ih =>
    show (m.call c).after rest = m
    rw [hcall c, ih]

/-- **Bounds that no code can break.** Take any code, options and input, and make
any calls of the machine, one after the other and whether they fail or not.

1. The next instruction is one of the code, or the address is the end of the code.
2. The stack holds no more than it may.
3. No more steps were made than allowed.
4. A further step finds the machine halted just in case it is at the end of the code.
5. From then on no call changes anything about the machine. -/
theorem confined_forever (code : Code) (options : Options) (input : List UInt8)
    (calls : List Call) :
    let m := (start code options input).after calls
    m.ip ≤ code.length ∧ m.stack.depth ≤ options.maxStack ∧
      (∀ limit, options.maxSteps = some limit → m.steps ≤ limit) ∧
      (m.step.2 = .halted ↔ m.ip = code.length) ∧
      (m.step.2 = .halted → ∀ more : List Call, m.after more = m) := by
  intro m
  have hm : m.Confined code options := (confined_start code options input).after calls
  exact ⟨hm.ip_le, hm.stack_within.depth_le, hm.steps_le, hm.halted_iff, after_halted⟩

-- The failed addition has taken the only operand along. The machine can be asked to go
-- on, but stays where it is until it may make no more steps.
example :
    let code : Code := [.push (.int 1), .binary (.add .int), .jmp 7]
    let m := (start code { maxStack := 1, maxSteps := some 4 } []).after
      [.run 9, .step, .run 9, .step]
    (m.ip, m.steps, m.stack.items) = (1, 4, []) := by
  decide +kernel

end Machine

end Cairn
