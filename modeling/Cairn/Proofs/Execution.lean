import Cairn.Machine.Basic
import Cairn.Proofs.Labels
import Cairn.Proofs.Preservation

/-!
# Cairn — reasoning about runs of the machine

What a run comes to is shown from its end to its beginning. A property of
machines that carries over from behind a step to in front of it, and that holds
where a limit cuts the run short, is a *precondition*: to show it of a machine
it suffices to show it of the machine after the next instruction. Each
instruction has one rule that says so.

A precondition may be one of the machine's further life as a whole ("it halts
with this output") or of its first steps only ("nothing bad happens in the next
`n` steps"); in the second case every step counts (`Precedes`).

## Main statements

* `Machine.Precedes.at_push`, `at_load`, …  — one rule for each instruction.
-/

namespace Cairn

/-- Faults that operators find in their operands. -/
def Fault.isOperand : Fault → Bool
  | .typeFault _ _ | .divisionByZero => true
  | _ => false

theorem Fault.not_limit_of_isOperand {f : Fault} (h : f.isOperand) : f.isLimit = false := by
  cases f <;> first | rfl | cases h

/-- Operators fault by the types of their operands, or when they divide by zero. -/
theorem Instruction.Unary.fault_of_apply {op : Unary} {v : Value} {f : Fault}
    (h : op.apply v = .error f) : f = .ofOperand op.mnemonic v := by
  cases op <;> cases v <;> cases h <;> rfl

theorem Arithmetic.fault_of_apply {op : Arithmetic} {mnemonic : String} {tag : Tag}
    {left right : Value} {f : Fault} (h : op.apply mnemonic tag left right = .error f) :
    f = .divisionByZero ∨ f = .ofOperands mnemonic left right := by
  rw [Arithmetic.apply] at h
  split at h
  · cases h
    exact .inr rfl
  · cases h
  · next i j _ =>
    split at h
    · cases h
    · rcases op.onInts_sound i j with ⟨k, hk⟩ | hzero
      · rw [hk] at h
        cases h
      · rw [hzero] at h
        cases h
        exact .inl rfl

theorem Instruction.Binary.fault_of_apply {op : Binary} {left right : Value} {f : Fault}
    (h : op.apply left right = .error f) :
    f = .divisionByZero ∨ f = .ofOperands op.mnemonic left right := by
  have horder : ∀ {onInts onDoubles}, op.order onInts onDoubles left right = .error f →
      f = .ofOperands op.mnemonic left right := by
    intro onInts onDoubles h
    rw [Instruction.Binary.order] at h
    split at h <;> cases h
    rfl
  cases op with
  | add tag => exact Arithmetic.fault_of_apply h
  | sub tag => exact Arithmetic.fault_of_apply h
  | mul tag => exact Arithmetic.fault_of_apply h
  | div tag => exact Arithmetic.fault_of_apply h
  | lt => exact .inr (horder h)
  | gt => exact .inr (horder h)
  | eq =>
    simp only [Instruction.Binary.apply] at h
    split at h
    · cases h
    · cases h
    · exact .inr (horder h)
  | mod =>
    simp only [Instruction.Binary.apply] at h
    split at h
    · split at h <;> cases h
      exact .inl rfl
    · cases h
      exact .inr rfl
  | concat | and | or =>
    simp only [Instruction.Binary.apply] at h
    split at h <;> cases h
    exact .inr rfl

-- ---------------------------------------------------------------------------
-- Machines inside a piece of code
-- ---------------------------------------------------------------------------

namespace Machine

/-- What a machine works on. -/
def world (m : Machine) : World :=
  ⟨m.store, m.input, m.output⟩

/-- A machine in the middle of a run. -/
def inside (code : Code) (options : Options) (ip steps : Nat) (items : List Value) (w : World) :
    Machine where
  code := code
  options := options
  ip := ip
  steps := steps
  stack := ⟨items, options.maxStack⟩
  store := w.store
  input := w.input
  output := w.output

-- ---------------------------------------------------------------------------
-- Parts of an instruction
-- ---------------------------------------------------------------------------

/-- Pushes the result of an operator, and goes on. -/
def pushResult (next : Nat) : Except Fault Value → Action Nat
  | .ok v => do
    push v
    return next
  | .error f => throw f

/-- The characters of a line, if it is text. -/
def lineChars : Option String → Action (List Char)
  | some text => return chomp text.toList
  | none => throw .badEncoding

/-- The value that a line stands for. -/
def lineValue (tag : Tag) (line : List Char) : Action Value :=
  match Value.ofLine? tag line with
  | some v => return v
  | none => throw (.invalidInput tag.ty (String.ofList line))

theorem execute_unary (next : Nat) (op : Instruction.Unary) :
    execute next (.unary op) = pop >>= fun v => pushResult next (op.apply v) := rfl

theorem execute_binary (next : Nat) (op : Instruction.Binary) :
    execute next (.binary op) =
      pop >>= fun right => pop >>= fun left => pushResult next (op.apply left right) := rfl

theorem readLine_eq :
    readLine = get >>= fun m =>
      if m.input.isEmpty then throw .endOfInput
      else set { m with input := (takeLine m.input).2 } >>= fun _ =>
        lineChars (ofUtf8? (takeLine m.input).1) := rfl

theorem readValue_eq (tag : Tag) :
    readValue tag = get >>= fun m =>
      if m.options.prompt then
        write ("Input " ++ tag.ty.name ++ ":\n") >>= fun _ => readLine >>= lineValue tag
      else readLine >>= lineValue tag := rfl

section

variable {m : Machine} {F : Fault → Machine → Prop}

theorem wp_push {v : Value} {K : Unit → Machine → Prop} :
    wp (push v) K F m ↔
      match m.stack.push v with
      | .ok stack => K () { m with stack := stack }
      | .error f => F f m := by
  rw [push, wp_bind, wp_get]
  cases m.stack.push v <;> exact Iff.rfl

theorem wp_pop {K : Value → Machine → Prop} :
    wp pop K F m ↔
      match m.stack.pop with
      | .ok (v, stack) => K v { m with stack := stack }
      | .error f => F f m := by
  rw [pop, wp_bind, wp_get]
  cases m.stack.pop <;> exact Iff.rfl

theorem wp_popMany {n : Nat} {K : List Value → Machine → Prop} :
    wp (popMany n) K F m ↔
      match m.stack.popMany n with
      | .ok (vs, stack) => K vs { m with stack := stack }
      | .error f => F f m := by
  rw [popMany, wp_bind, wp_get]
  cases m.stack.popMany n <;> exact Iff.rfl

theorem wp_resolve {id : UInt32} {K : Nat → Machine → Prop} :
    wp (resolve id) K F m ↔
      match Code.labelIndex? m.code id with
      | some index => K (index + 1) m
      | none => F (.unresolvedLabel id) m := by
  rw [resolve, wp_bind, wp_get]
  cases Code.labelIndex? m.code id <;> exact Iff.rfl

end

/-- A part of the machine that is neither the stack nor the input or output. -/
structure Apart {β : Type} (part : Machine → β) : Prop where
  stack : ∀ m stack, part { m with stack := stack } = part m
  input : ∀ m input, part { m with input := input } = part m
  output : ∀ m output, part { m with output := output } = part m

/-- An action that leaves a part of the machine alone, and does not fail by the
limit on steps. -/
def Keeps {α β : Type} (part : Machine → β) (x : Action α) : Prop :=
  ∀ m : Machine, wp x (fun _ m' => part m' = part m)
    (fun f m' => part m' = part m ∧ ∀ limit, f ≠ .stepLimit limit) m

namespace Keeps

variable {α β γ : Type} {part : Machine → γ}

theorem bind {x : Action α} {g : α → Action β} (hx : Keeps part x) (hg : ∀ a, Keeps part (g a)) :
    Keeps part (x >>= g) := by
  intro m
  refine wp_bind.mpr ((hx m).mono (fun a m' hm' => ?_) fun _ _ h => h)
  exact (hg a m').mono (fun _ _ h => h.trans hm') fun _ _ h => ⟨h.1.trans hm', h.2⟩

theorem pure (a : α) : Keeps part (Pure.pure a) := fun _ => rfl

theorem throw {f : Fault} (hf : ∀ limit, f ≠ .stepLimit limit) :
    Keeps part (MonadExcept.throw f : Action α) := fun _ => ⟨rfl, hf⟩

theorem get : Keeps part (MonadState.get : Action Machine) := fun _ => rfl

variable (h : Apart part)

include h

theorem push (v : Value) : Keeps part (Machine.push v) := by
  intro m
  rw [wp_push]
  cases hpush : m.stack.push v with
  | ok stack => exact h.stack m stack
  | error f =>
    rw [Stack.push] at hpush
    split at hpush <;> cases hpush
    exact ⟨rfl, by simp⟩

theorem pop : Keeps part Machine.pop := by
  intro m
  rw [wp_pop]
  cases hpop : m.stack.pop with
  | ok result => exact h.stack m result.2
  | error f =>
    rw [Stack.pop] at hpop
    split at hpop <;> cases hpop
    exact ⟨rfl, by simp⟩

theorem popMany (n : Nat) : Keeps part (Machine.popMany n) := by
  intro m
  rw [wp_popMany]
  cases hpop : m.stack.popMany n with
  | ok result => exact h.stack m result.2
  | error f =>
    rw [Stack.popMany] at hpop
    split at hpop <;> cases hpop
    exact ⟨rfl, by simp⟩

theorem write (text : String) : Keeps part (Machine.write text) :=
  fun m => h.output m (m.output ++ text)

omit h in
theorem resolve (id : UInt32) : Keeps part (Machine.resolve id) := by
  intro m
  rw [wp_resolve]
  cases Code.labelIndex? m.code id with
  | some index => rfl
  | none => exact ⟨rfl, by simp⟩

theorem readLine : Keeps part Machine.readLine := by
  intro m
  rw [readLine_eq, wp_bind, wp_get]
  split
  · exact ⟨rfl, by simp⟩
  · rw [wp_bind, wp_set]
    cases ofUtf8? (takeLine m.input).1 with
    | some text => exact h.input m _
    | none => exact ⟨h.input m _, by simp⟩

theorem readValue (tag : Tag) : Keeps part (Machine.readValue tag) := by
  have hvalue : Keeps part (Machine.readLine >>= lineValue tag) := by
    refine bind (readLine h) fun line => ?_
    rw [lineValue]
    cases Value.ofLine? tag line with
    | some v => exact pure v
    | none => exact throw (by simp)
  rw [readValue_eq]
  refine bind get fun m => ?_
  split
  · exact bind (write h _) fun _ => hvalue
  · exact hvalue

theorem pushResult (next : Nat) {result : Except Fault Value}
    (hresult : ∀ f, result = .error f → ∀ limit, f ≠ .stepLimit limit) :
    Keeps part (Machine.pushResult next result) := by
  cases result with
  | ok v => exact bind (push h v) fun _ => pure next
  | error f => exact throw (hresult f rfl)

end Keeps

theorem isOperand_of_unary {op : Instruction.Unary} {v : Value} {f : Fault}
    (h : op.apply v = .error f) : f.isOperand := by
  rw [op.fault_of_apply h]
  rfl

theorem isOperand_of_binary {op : Instruction.Binary} {a b : Value} {f : Fault}
    (h : op.apply a b = .error f) : f.isOperand := by
  rcases op.fault_of_apply h with rfl | rfl <;> rfl

theorem unary_not_limit {op : Instruction.Unary} {v : Value} {f : Fault}
    (h : op.apply v = .error f) : f.isLimit = false :=
  Fault.not_limit_of_isOperand (isOperand_of_unary h)

theorem binary_not_limit {op : Instruction.Binary} {a b : Value} {f : Fault}
    (h : op.apply a b = .error f) : f.isLimit = false :=
  Fault.not_limit_of_isOperand (isOperand_of_binary h)

theorem ne_stepLimit_of_not_limit {f : Fault} (h : f.isLimit = false) (limit : Nat) :
    f ≠ .stepLimit limit := by
  rintro rfl
  cases h

/-- An instruction may change the values of the names, if it does not fail, but
nothing else that is apart from stack, input and output. -/
theorem execute_keeps {β : Type} (part : Machine → β) (h : Apart part) (next : Nat)
    (i : Instruction) (m : Machine) :
    wp (execute next i) (fun _ m' => ∃ store, part m' = part { m with store := store })
      (fun f m' => part m' = part m ∧ ∀ limit, f ≠ .stepLimit limit) m := by
  have weaken : ∀ {x : Action Nat}, Keeps part x →
      wp x (fun _ m' => ∃ store, part m' = part { m with store := store })
        (fun f m' => part m' = part m ∧ ∀ limit, f ≠ .stepLimit limit) m :=
    fun hx => (hx m).mono (fun _ _ hm => ⟨m.store, hm⟩) fun _ _ hf => hf
  cases i with
  | save x =>
    rw [execute, wp_bind, wp_pop]
    cases hpop : m.stack.pop with
    | ok result =>
      exact ⟨m.store.insert x result.1,
        h.stack { m with store := m.store.insert x result.1 } result.2⟩
    | error f =>
      have hkeeps := Keeps.pop h m
      rw [wp_pop, hpop] at hkeeps
      exact hkeeps
  | push v => exact weaken (.bind (.push h v) fun _ => .pure _)
  | pop => exact weaken (.bind (.pop h) fun _ => .pure _)
  | load x =>
    refine weaken (.bind .get fun m => ?_)
    cases m.store.find? x with
    | some v => exact .bind (.push h v) fun _ => .pure _
    | none => exact .throw (by simp)
  | label id => exact weaken (.pure _)
  | jmp id => exact weaken (.resolve id)
  | fjmp id =>
    refine weaken (.bind (.pop h) fun v => ?_)
    split
    · exact .pure _
    · exact .resolve id
    · exact .throw (by simp [Fault.ofOperand])
  | print count => exact weaken (.bind (.popMany h _) fun _ => .bind (.write h _) fun _ => .pure _)
  | read tag => exact weaken (.bind (.readValue h tag) fun _ => .bind (.push h _) fun _ => .pure _)
  | unary op =>
    rw [execute_unary]
    exact weaken (.bind (.pop h) fun v => .pushResult h next fun f hf =>
      ne_stepLimit_of_not_limit (unary_not_limit hf))
  | binary op =>
    rw [execute_binary]
    exact weaken (.bind (.pop h) fun b => .bind (.pop h) fun a =>
      .pushResult h next fun f hf => ne_stepLimit_of_not_limit (binary_not_limit hf))

-- ---------------------------------------------------------------------------
-- Steps
-- ---------------------------------------------------------------------------

section

variable {m m' : Machine} {i : Instruction} {f : Fault}

theorem step_of_end (hi : m.code[m.ip]? = none) : m.step = (m, .halted) := by
  rw [step, hi]

theorem step_of_limit {limit : Nat} (hi : m.code[m.ip]? = some i)
    (hlimit : m.limitReached = some limit) : m.step = (m, .failed (.stepLimit limit)) := by
  rw [step, hi, hlimit]

theorem step_of_ok {next : Nat} (hi : m.code[m.ip]? = some i) (hlimit : m.limitReached = none)
    (hrun : execute (m.ip + 1) i { m with steps := m.steps + 1 } = .ok next m') :
    m.step = ({ m' with ip := next }, .executed) := by
  simp only [step, hi, hlimit, EStateM.run, hrun]

theorem step_of_error (hi : m.code[m.ip]? = some i) (hlimit : m.limitReached = none)
    (hrun : execute (m.ip + 1) i { m with steps := m.steps + 1 } = .error f m') :
    m.step = (m', .failed f) := by
  simp only [step, hi, hlimit, EStateM.run, hrun]

/-- All that a step can come to. -/
inductive Stepped (m : Machine) : Machine × StepResult → Prop
  | halted (hi : m.code[m.ip]? = none) : Stepped m (m, .halted)
  | limited {i : Instruction} {limit : Nat} (hi : m.code[m.ip]? = some i)
    (hlimit : m.limitReached = some limit) : Stepped m (m, .failed (.stepLimit limit))
  | executed {i : Instruction} {next : Nat} {m' : Machine} (hi : m.code[m.ip]? = some i)
    (hlimit : m.limitReached = none)
    (hrun : execute (m.ip + 1) i { m with steps := m.steps + 1 } = .ok next m') :
    Stepped m ({ m' with ip := next }, .executed)
  | failed {i : Instruction} {f : Fault} {m' : Machine} (hi : m.code[m.ip]? = some i)
    (hlimit : m.limitReached = none)
    (hrun : execute (m.ip + 1) i { m with steps := m.steps + 1 } = .error f m') :
    Stepped m (m', .failed f)

theorem step_cases (m : Machine) : Stepped m m.step := by
  cases hi : m.code[m.ip]? with
  | none =>
    rw [step_of_end hi]
    exact .halted hi
  | some i =>
    cases hlimit : m.limitReached with
    | some limit =>
      rw [step_of_limit hi hlimit]
      exact .limited hi hlimit
    | none =>
      cases hrun : execute (m.ip + 1) i { m with steps := m.steps + 1 } with
      | ok next m' =>
        rw [step_of_ok hi hlimit hrun]
        exact .executed hi hlimit hrun
      | error f m' =>
        rw [step_of_error hi hlimit hrun]
        exact .failed hi hlimit hrun

/-- A machine halts behind its code, and stays as it is. -/
theorem step_halted (h : m.step = (m', .halted)) : m' = m ∧ m.code[m.ip]? = none := by
  have hcases := step_cases m
  rw [h] at hcases
  cases hcases with
  | halted hi => exact ⟨rfl, hi⟩

/-- A step that fails leaves the values of the names alone, and fails by the
limit on steps only if that is reached. -/
theorem step_failed (h : m.step = (m', .failed f)) :
    m'.store = m.store ∧ ∀ limit, f = .stepLimit limit → m.limitReached = some limit := by
  have hcases := step_cases m
  rw [h] at hcases
  cases hcases with
  | limited hi hlimit =>
    refine ⟨rfl, fun limit hl => ?_⟩
    cases hl
    exact hlimit
  | failed hi hlimit hrun =>
    have hapart : Apart Machine.store := ⟨fun _ _ => rfl, fun _ _ => rfl, fun _ _ => rfl⟩
    have hkeeps := (execute_keeps Machine.store hapart _ _ _).of_error hrun
    exact ⟨hkeeps.1, fun limit hl => absurd hl (hkeeps.2 limit)⟩

theorem step_options (h : m.step = (m', .executed)) : m'.options = m.options := by
  have hcases := step_cases m
  rw [h] at hcases
  cases hcases with
  | executed hi hlimit hrun =>
    have hapart : Apart Machine.options := ⟨fun _ _ => rfl, fun _ _ => rfl, fun _ _ => rfl⟩
    obtain ⟨store, hoptions⟩ := (execute_keeps Machine.options hapart _ _ _).of_ok hrun
    exact hoptions

end

-- ---------------------------------------------------------------------------
-- Runs
-- ---------------------------------------------------------------------------

section

variable {m m' : Machine}

theorem runFor_of_executed (h : m.step = (m', .executed)) (n : Nat) :
    m.runFor (n + 1) = m'.runFor n := by
  simp only [runFor, h]

theorem runFor_of_halted (h : m.step = (m', .halted)) (n : Nat) :
    m.runFor (n + 1) = (m', some .halted) := by
  simp only [runFor, h]

theorem runFor_of_failed {f : Fault} (h : m.step = (m', .failed f)) (n : Nat) :
    m.runFor (n + 1) = (m', some (.failed f)) := by
  simp only [runFor, h]

/-- A run that has ended stays as it is. -/
theorem runFor_stable {n k : Nat} {e : Ending} (h : m.runFor n = (m', some e)) (hk : n ≤ k) :
    m.runFor k = (m', some e) := by
  induction n generalizing m k with
  | zero => cases h
  | succ n ih =>
    obtain ⟨k, rfl⟩ : ∃ j, k = j + 1 := ⟨k - 1, by omega⟩
    rcases hstep : m.step with ⟨next, result⟩
    cases result with
    | executed =>
      rw [runFor_of_executed hstep] at h ⊢
      exact ih h (by omega)
    | halted =>
      rw [runFor_of_halted hstep] at h ⊢
      exact h
    | failed f =>
      rw [runFor_of_failed hstep] at h ⊢
      exact h

/-- A run that halts is behind its code. -/
theorem end_of_halts {n : Nat} (h : m.runFor n = (m', some .halted)) :
    m'.code[m'.ip]? = none := by
  induction n generalizing m with
  | zero => cases h
  | succ n ih =>
    rcases hstep : m.step with ⟨next, result⟩
    cases result with
    | executed =>
      rw [runFor_of_executed hstep] at h
      exact ih h
    | halted =>
      rw [runFor_of_halted hstep] at h
      cases h
      obtain ⟨rfl, hi⟩ := step_halted hstep
      exact hi
    | failed f =>
      rw [runFor_of_failed hstep] at h
      cases h

/-- A run has one ending. -/
theorem runFor_ending_unique {n k : Nat} {m'' : Machine} {e e' : Ending}
    (h : m.runFor n = (m', some e)) (h' : m.runFor k = (m'', some e')) : m' = m'' ∧ e = e' := by
  have hmax := runFor_stable h (Nat.le_max_left n k)
  rw [runFor_stable h' (Nat.le_max_right n k)] at hmax
  cases hmax
  exact ⟨rfl, rfl⟩

end

-- ---------------------------------------------------------------------------
-- Preconditions
-- ---------------------------------------------------------------------------

/-- `P` holds in front of a step if `Q` holds behind it, and where a limit stops
the machine. -/
structure Precedes (Γ : Symbols) (P Q : Machine → Prop) : Prop where
  step : ∀ {m m' : Machine}, m.world.Typed Γ → m.step = (m', .executed) → Q m' → P m
  limit : ∀ {m m' : Machine} {f : Fault}, m.world.Typed Γ → m.step = (m', .failed f) →
    f.isLimit → P m

/-- `P` holds of every machine whose next step fails with `f` and leaves the
world `w`. -/
def HoldsOnFault (P : Machine → Prop) (f : Fault) (w : World) : Prop :=
  ∀ m m' : Machine, m.step = (m', .failed f) → m'.world = w → P m

/-- `P` holds of a machine at `ip` of the code, however many steps it has done.
The stack never holds more than is allowed. -/
def HoldsAt (code : Code) (options : Options) (P : Machine → Prop) (ip : Nat)
    (items : List Value) (w : World) : Prop :=
  items.length ≤ options.maxStack → ∀ k, P (inside code options ip k items w)

section

variable {Γ : Symbols} {P Q : Machine → Prop} {code : Code} {options : Options} {ip : Nat}
  {items : List Value} {w : World}

/-- How a step is taken apart: what the instruction does decides. -/
theorem Precedes.holdsAt (h : Precedes Γ P Q) {i : Instruction} (hi : code[ip]? = some i)
    (hw : w.Typed Γ)
    (hexec : items.length ≤ options.maxStack → ∀ k, wp (execute (ip + 1) i)
      (fun next m => Q { m with ip := next })
      (fun f m => f.isLimit ∨ HoldsOnFault P f m.world) (inside code options ip k items w)) :
    HoldsAt code options P ip items w := by
  intro hlen k
  have hexec := hexec hlen (k + 1)
  rw [wp] at hexec
  cases hlimit : (inside code options ip k items w).limitReached with
  | some limit =>
    exact h.limit hw (step_of_limit hi hlimit) rfl
  | none =>
    cases hrun : execute (ip + 1) i (inside code options ip (k + 1) items w) with
    | ok next m =>
      rw [hrun] at hexec
      exact h.step hw (step_of_ok hi hlimit hrun) hexec
    | error f m =>
      rw [hrun] at hexec
      rcases hexec with hlim | hfault
      · exact h.limit hw (step_of_error hi hlimit hrun) hlim
      · exact hfault _ _ (step_of_error hi hlimit hrun) rfl

/-- Pushing fails by a limit, or leads on. -/
theorem wp_push_inside {v : Value} {k : Nat} {K : Unit → Machine → Prop}
    (hnext : (v :: items).length ≤ options.maxStack →
      K () (inside code options ip k (v :: items) w)) :
    wp (push v) K (fun f m => f.isLimit ∨ HoldsOnFault P f m.world)
      (inside code options ip k items w) := by
  rw [wp_push]
  by_cases hfull : options.maxStack ≤ items.length
  · have hpush : (inside code options ip k items w).stack.push v =
        .error (.stackOverflow options.maxStack) := if_pos hfull
    rw [hpush]
    exact .inl rfl
  · have hpush : (inside code options ip k items w).stack.push v =
        .ok ⟨v :: items, options.maxStack⟩ := if_neg hfull
    rw [hpush]
    exact hnext (by rw [List.length_cons]; omega)

theorem wp_readLine_inside {k : Nat} {K : List Char → Machine → Prop} {F : Fault → Machine → Prop}
    (h : wp inputLine (fun line w' => K line (inside code options ip k items w'))
      (fun f w' => F f (inside code options ip k items w')) w) :
    wp readLine K F (inside code options ip k items w) := by
  rw [inputLine, wp_bind, wp_get] at h
  rw [readLine_eq, wp_bind, wp_get]
  by_cases hempty : w.input.isEmpty
  · have hempty' : (inside code options ip k items w).input.isEmpty := hempty
    rw [if_pos hempty, wp_throw] at h
    rw [if_pos hempty', wp_throw]
    exact h
  · have hempty' : ¬ (inside code options ip k items w).input.isEmpty := hempty
    rw [if_neg hempty, wp_bind, wp_set] at h
    rw [if_neg hempty', wp_bind, wp_set]
    have htake : (inside code options ip k items w).input = w.input := rfl
    rw [htake]
    cases htext : ofUtf8? (takeLine w.input).1 with
    | some text =>
      rw [htext] at h
      exact h
    | none =>
      rw [htext] at h
      exact h

/-- The machine reads as the program does. -/
theorem wp_readValue_inside {k : Nat} {tag : Tag} {K : Value → Machine → Prop}
    {F : Fault → Machine → Prop}
    (h : wp (Cairn.readValue options.prompt tag)
      (fun v w' => K v (inside code options ip k items w'))
      (fun f w' => F f (inside code options ip k items w')) w) :
    wp (readValue tag) K F (inside code options ip k items w) := by
  have htake : ∀ w' : World, wp (takeValue tag)
      (fun v w'' => K v (inside code options ip k items w''))
      (fun f w'' => F f (inside code options ip k items w'')) w' →
      wp (readLine >>= lineValue tag) K F (inside code options ip k items w') := by
    intro w' hw'
    rw [takeValue, wp_bind] at hw'
    rw [wp_bind]
    refine wp_readLine_inside (hw'.mono (fun line w'' hv => ?_) fun f w'' hf => hf)
    rw [lineValue]
    cases hline : Value.ofLine? tag line with
    | some v =>
      rw [hline] at hv
      exact hv
    | none =>
      rw [hline] at hv
      exact hv
  rw [readValue_eq, wp_bind, wp_get]
  have hprompt : (inside code options ip k items w).options.prompt = options.prompt := rfl
  rw [hprompt]
  cases hp : options.prompt with
  | false =>
    rw [hp] at h
    exact htake w h
  | true =>
    rw [hp] at h
    exact htake (w.write ("Input " ++ tag.ty.name ++ ":\n")) h

-- ---------------------------------------------------------------------------
-- One rule for each instruction
-- ---------------------------------------------------------------------------

namespace Precedes

variable (h : Precedes Γ P Q) (hw : w.Typed Γ)

include h hw

theorem push {v : Value} (hi : code[ip]? = some (.push v))
    (hnext : HoldsAt code options Q (ip + 1) (v :: items) w) :
    HoldsAt code options P ip items w := by
  refine h.holdsAt hi hw fun _ k => ?_
  rw [execute, wp_bind]
  exact wp_push_inside fun hlen => hnext hlen k

theorem pop {v : Value} (hi : code[ip]? = some .pop)
    (hnext : HoldsAt code options Q (ip + 1) items w) :
    HoldsAt code options P ip (v :: items) w := by
  refine h.holdsAt hi hw fun hlen k => ?_
  rw [execute, wp_bind, wp_pop]
  exact hnext (Nat.le_of_succ_le hlen) k

theorem load {x : String} {v : Value} (hi : code[ip]? = some (.load x))
    (hx : w.store.find? x = some v) (hnext : HoldsAt code options Q (ip + 1) (v :: items) w) :
    HoldsAt code options P ip items w := by
  refine h.holdsAt hi hw fun _ k => ?_
  have hx : (inside code options ip k items w).store.find? x = some v := hx
  rw [execute, wp_bind, wp_get, hx, wp_bind]
  exact wp_push_inside fun hlen => hnext hlen k

theorem loadUnset {x : String} (hi : code[ip]? = some (.load x)) (hx : w.store.find? x = none)
    (hfault : HoldsOnFault P (.undefinedVariable x) w) : HoldsAt code options P ip items w := by
  refine h.holdsAt hi hw fun _ k => ?_
  have hx : (inside code options ip k items w).store.find? x = none := hx
  rw [execute, wp_bind, wp_get, hx]
  exact .inr hfault

theorem save {x : String} {v : Value} (hi : code[ip]? = some (.save x))
    (hnext : HoldsAt code options Q (ip + 1) items (w.set x v)) :
    HoldsAt code options P ip (v :: items) w := by
  refine h.holdsAt hi hw fun hlen k => ?_
  rw [execute, wp_bind, wp_pop]
  exact hnext (Nat.le_of_succ_le hlen) k

theorem label {id : UInt32} (hi : code[ip]? = some (.label id))
    (hnext : HoldsAt code options Q (ip + 1) items w) : HoldsAt code options P ip items w :=
  h.holdsAt hi hw fun hlen k => hnext hlen k

theorem jmp {id : UInt32} {target : Nat} (hi : code[ip]? = some (.jmp id))
    (htarget : Code.labelIndex? code id = some target)
    (hnext : HoldsAt code options Q (target + 1) items w) : HoldsAt code options P ip items w := by
  refine h.holdsAt hi hw fun hlen k => ?_
  have htarget : Code.labelIndex? (inside code options ip k items w).code id = some target :=
    htarget
  rw [execute, wp_resolve, htarget]
  exact hnext hlen k

theorem fjmpTrue {id : UInt32} (hi : code[ip]? = some (.fjmp id))
    (hnext : HoldsAt code options Q (ip + 1) items w) :
    HoldsAt code options P ip (.bool true :: items) w := by
  refine h.holdsAt hi hw fun hlen k => ?_
  rw [execute, wp_bind, wp_pop]
  exact hnext (Nat.le_of_succ_le hlen) k

theorem fjmpFalse {id : UInt32} {target : Nat} (hi : code[ip]? = some (.fjmp id))
    (htarget : Code.labelIndex? code id = some target)
    (hnext : HoldsAt code options Q (target + 1) items w) :
    HoldsAt code options P ip (.bool false :: items) w := by
  refine h.holdsAt hi hw fun hlen k => ?_
  rw [execute, wp_bind, wp_pop]
  show wp (resolve id) _ _ (inside code options ip k items w)
  have htarget : Code.labelIndex? (inside code options ip k items w).code id = some target :=
    htarget
  rw [wp_resolve, htarget]
  exact hnext (Nat.le_of_succ_le hlen) k

theorem print {count : UInt64} {vs : List Value} (hi : code[ip]? = some (.print count))
    (hcount : count.toNat = vs.length)
    (hnext : HoldsAt code options Q (ip + 1) items
      (w.write (String.join (vs.map Value.text) ++ "\n"))) :
    HoldsAt code options P ip (vs.reverse ++ items) w := by
  refine h.holdsAt hi hw fun hlen k => ?_
  have hpop : (inside code options ip k (vs.reverse ++ items) w).stack.popMany count.toNat =
      .ok (vs, ⟨items, options.maxStack⟩) := by
    simp [inside, Stack.popMany, Stack.depth, hcount]
  rw [execute, wp_bind, wp_popMany, hpop]
  rw [List.length_append] at hlen
  exact hnext (Nat.le_trans (Nat.le_add_left _ _) hlen) k

theorem read {tag : Tag} (hi : code[ip]? = some (.read tag))
    (hread : wp (Cairn.readValue options.prompt tag)
      (fun v w' => HoldsAt code options Q (ip + 1) (v :: items) w') (HoldsOnFault P) w) :
    HoldsAt code options P ip items w := by
  refine h.holdsAt hi hw fun _ k => ?_
  rw [execute, wp_bind]
  refine wp_readValue_inside (hread.mono (fun v w' hv => ?_) fun f w' hf => .inr hf)
  rw [wp_bind]
  exact wp_push_inside fun hlen => hv hlen k

theorem unary {op : Instruction.Unary} {v u : Value} (hi : code[ip]? = some (.unary op))
    (hop : op.apply v = .ok u) (hnext : HoldsAt code options Q (ip + 1) (u :: items) w) :
    HoldsAt code options P ip (v :: items) w := by
  refine h.holdsAt hi hw fun _ k => ?_
  rw [execute_unary, wp_bind, wp_pop]
  show wp (pushResult (ip + 1) (op.apply v)) _ _ (inside code options ip k items w)
  rw [hop, pushResult, wp_bind]
  exact wp_push_inside fun hlen => hnext hlen k

theorem binary {op : Instruction.Binary} {a b v : Value} (hi : code[ip]? = some (.binary op))
    (hop : op.apply a b = .ok v) (hnext : HoldsAt code options Q (ip + 1) (v :: items) w) :
    HoldsAt code options P ip (b :: a :: items) w := by
  refine h.holdsAt hi hw fun _ k => ?_
  rw [execute_binary, wp_bind, wp_pop]
  show wp (Machine.pop >>= _) _ _ (inside code options ip k (a :: items) w)
  rw [wp_bind, wp_pop]
  show wp (pushResult (ip + 1) (op.apply a b)) _ _ (inside code options ip k items w)
  rw [hop, pushResult, wp_bind]
  exact wp_push_inside fun hlen => hnext hlen k

theorem binaryFault {op : Instruction.Binary} {a b : Value} {f : Fault}
    (hi : code[ip]? = some (.binary op)) (hop : op.apply a b = .error f)
    (hfault : HoldsOnFault P f w) : HoldsAt code options P ip (b :: a :: items) w := by
  refine h.holdsAt hi hw fun _ k => ?_
  rw [execute_binary, wp_bind, wp_pop]
  show wp (Machine.pop >>= _) _ _ (inside code options ip k (a :: items) w)
  rw [wp_bind, wp_pop]
  show wp (pushResult (ip + 1) (op.apply a b)) _ _ (inside code options ip k items w)
  rw [hop, pushResult, wp_throw]
  exact .inr hfault

end Precedes

end

end Machine

end Cairn
