import Cairn.Proofs.Failures

/-!
# Cairn — asking for input

A machine may ask for each value that it reads, by a line in front of it. That is all
the difference it makes. A machine that asks and one that does not go through the same
states and end in the same way, also if that is in the middle of reading a value. What
the one writes is what the other writes, with the questions put in: one for each
instruction that reads, behind all that was printed before it.

## Main definitions

* `Machine.asking`  — the machine with questions.
* `Machine.journal` — the instructions that a run executes, with what they print.

## Main statements

* `Machine.step_asking`   — one step, with and without questions.
* `Machine.runFor_asking` — a run, with and without questions.
* `Machine.prompting_inserts_questions` — runs from the start.
-/

namespace Cairn.Machine

-- ---------------------------------------------------------------------------
-- What a run executes and prints
-- ---------------------------------------------------------------------------

/-- The machine when it asks for input, with another text written so far. -/
def asking (text : String) (m : Machine) : Machine :=
  { m with options := { m.options with prompt := true }, output := text }

/-- What the instruction prints, if there are enough values. -/
def printed (m : Machine) : Instruction → String
  | .print count =>
    if count.toNat ≤ m.stack.depth then
      String.join ((m.stack.items.take count.toNat).reverse.map Value.text) ++ "\n"
    else ""
  | _ => ""

/-- An instruction that was executed, and what it printed. -/
structure Entry where
  instruction : Instruction
  printed : String

/-- What is written on behalf of the instruction if the machine asks for input: the
question comes first. -/
def Entry.asked (e : Entry) : String :=
  e.instruction.question ++ e.printed

/-- The next instruction, unless the limit on steps keeps it from being executed. -/
def record? (m : Machine) : Option Entry :=
  match m.code[m.ip]?, m.limitReached with
  | some i, none => some ⟨i, m.printed i⟩
  | _, _ => none

/-- The instructions that are executed in up to `k` steps. One that fails is executed,
too, and is the last one. -/
def journal : Nat → Machine → List Entry
  | 0, _ => []
  | k + 1, m =>
    m.record?.toList ++
      match m.step with
      | (n, .executed) => n.journal k
      | _ => []

theorem record?_of_some {m : Machine} {i : Instruction} (hi : m.code[m.ip]? = some i)
    (hlimit : m.limitReached = none) : m.record? = some ⟨i, m.printed i⟩ := by
  rw [record?, hi, hlimit]

-- ---------------------------------------------------------------------------
-- Actions that write nothing
-- ---------------------------------------------------------------------------

/-- The action does the same whether the machine asks for input or not, and writes
nothing. -/
def Unheard {α : Type} (x : Action α) : Prop :=
  ∀ (m : Machine) (text : String),
    wp x (fun a n => n.output = m.output ∧ x (m.asking text) = .ok a (n.asking text))
      (fun f n => n.output = m.output ∧ x (m.asking text) = .error f (n.asking text)) m

namespace Unheard

variable {α β : Type}

theorem bind {x : Action α} {g : α → Action β} (hx : Unheard x) (hg : ∀ a, Unheard (g a)) :
    Unheard (x >>= g) := by
  intro m text
  refine wp_bind.mpr ((hx m text).mono (fun a n hn => ?_) fun f n hn => ?_)
  · obtain ⟨houtput, hasking⟩ := hn
    rw [bind_of_ok hasking, ← houtput]
    exact hg a n text
  · exact ⟨hn.1, bind_of_error hn.2⟩

theorem pure (a : α) : Unheard (Pure.pure a : Action α) :=
  fun _ _ => ⟨rfl, rfl⟩

theorem throw (f : Fault) : Unheard (MonadExcept.throw f : Action α) :=
  fun _ _ => ⟨rfl, rfl⟩

/-- An action that looks at the machine first, but neither at its options nor at what was
written. -/
theorem get {g : Machine → Action α} (hg : ∀ m, Unheard (g m))
    (hasking : ∀ m text, g (m.asking text) = g m) : Unheard (MonadState.get >>= g) := by
  intro m text
  have hlook : (MonadState.get >>= g) (m.asking text) = g m (m.asking text) := by
    rw [← hasking m text]
    exact bind_of_ok rfl
  rw [hlook]
  exact wp_bind.mpr (hg m m text)

theorem push (v : Value) : Unheard (Machine.push v) := by
  intro m text
  rw [wp_push]
  cases hpush : m.stack.push v with
  | ok stack =>
    have hasking : (m.asking text).stack.push v = .ok stack := hpush
    refine ⟨rfl, eq_ok_of_wp ?_⟩
    rw [wp_push, hasking]
    exact ⟨rfl, rfl⟩
  | error f =>
    have hasking : (m.asking text).stack.push v = .error f := hpush
    refine ⟨rfl, eq_error_of_wp ?_⟩
    rw [wp_push, hasking]
    exact ⟨rfl, rfl⟩

theorem pop : Unheard Machine.pop := by
  intro m text
  obtain ⟨code, options, ip, steps, ⟨items, limit⟩, store, input, output⟩ := m
  cases items <;> exact ⟨rfl, rfl⟩

theorem resolve (id : UInt32) : Unheard (Machine.resolve id) := by
  refine get (fun m => ?_) fun _ _ => rfl
  cases Code.labelIndex? m.code id with
  | some index => exact pure (index + 1)
  | none => exact throw (.unresolvedLabel id)

theorem pushResult (next : Nat) (result : Except Fault Value) :
    Unheard (Machine.pushResult next result) := by
  cases result with
  | ok v => exact bind (push v) fun _ => pure next
  | error f => exact throw f

theorem readLine : Unheard Machine.readLine := by
  intro m text
  have hinput : (m.asking text).input = m.input := rfl
  rw [readLine_eq, wp_bind, wp_get]
  by_cases hempty : m.input.isEmpty
  · rw [if_pos hempty]
    refine ⟨rfl, eq_error_of_wp ?_⟩
    rw [wp_bind, wp_get, hinput, if_pos hempty]
    exact ⟨rfl, rfl⟩
  · rw [if_neg hempty, wp_bind, wp_set]
    cases hline : ofUtf8? (takeLine m.input).1 with
    | some line =>
      refine ⟨rfl, eq_ok_of_wp ?_⟩
      rw [wp_bind, wp_get, hinput, if_neg hempty, wp_bind, wp_set, hline]
      exact ⟨rfl, rfl⟩
    | none =>
      refine ⟨rfl, eq_error_of_wp ?_⟩
      rw [wp_bind, wp_get, hinput, if_neg hempty, wp_bind, wp_set, hline]
      exact ⟨rfl, rfl⟩

theorem lineValue (tag : Tag) (line : List Char) : Unheard (Machine.lineValue tag line) := by
  rw [Machine.lineValue]
  cases Value.ofLine? tag line with
  | some v => exact pure v
  | none => exact throw _

end Unheard

-- ---------------------------------------------------------------------------
-- Instructions
-- ---------------------------------------------------------------------------

/-- From this machine the action writes what it prints, and behind the question if the
machine asks for input. Nothing else depends on that. -/
def Inserts {α : Type} (question printed : String) (x : Action α) (m : Machine) : Prop :=
  ∀ text,
    wp x
      (fun a n => n.output = m.output ++ printed ∧
        x (m.asking text) = .ok a (n.asking (text ++ (question ++ printed))))
      (fun f n => n.output = m.output ++ printed ∧
        x (m.asking text) = .error f (n.asking (text ++ (question ++ printed)))) m

namespace Inserts

variable {α β : Type} {m : Machine}

theorem ofUnheard {x : Action α} (hx : Unheard x) (m : Machine) : Inserts "" "" x m := by
  intro text
  rw [String.append_empty, String.append_empty, String.append_empty]
  exact hx m text

theorem bind {question printed : String} {x : Action α} {g : α → Action β}
    (hx : Inserts question printed x m) (hg : ∀ a, Unheard (g a)) :
    Inserts question printed (x >>= g) m := by
  intro text
  refine wp_bind.mpr ((hx text).mono (fun a n hn => ?_) fun f n hn => ?_)
  · obtain ⟨houtput, hasking⟩ := hn
    rw [bind_of_ok hasking, ← houtput]
    exact hg a n _
  · exact ⟨hn.1, bind_of_error hn.2⟩

/-- The question comes before the line is read. -/
theorem readValue (tag : Tag) (hm : m.options.prompt = false) :
    Inserts (Instruction.question (.read tag)) "" (Machine.readValue tag) m := by
  intro text
  have hvalue : Unheard (Machine.readLine >>= Machine.lineValue tag) :=
    .bind .readLine fun line => .lineValue tag line
  have hasking : Machine.readValue tag (m.asking text) =
      (Machine.readLine >>= Machine.lineValue tag)
        (m.asking (text ++ Instruction.question (.read tag))) := rfl
  rw [String.append_empty, String.append_empty, hasking, readValue_eq, wp_bind, wp_get, hm,
    if_neg Bool.false_ne_true]
  exact hvalue m _

/-- All values are taken off first, so that nothing is printed if there are too few. -/
theorem print (count : UInt64) (next : Nat) (m : Machine) :
    Inserts "" (m.printed (.print count)) (execute next (.print count)) m := by
  intro text
  rw [String.empty_append, execute, wp_bind, wp_popMany]
  by_cases hshort : m.stack.depth < count.toNat
  · have hprinted : m.printed (.print count) = "" := if_neg (Nat.not_le.mpr hshort)
    have hpop : m.stack.popMany count.toNat = .error .stackUnderflow := if_pos hshort
    have hpop' : (m.asking text).stack.popMany count.toNat = .error .stackUnderflow := hpop
    rw [hprinted, hpop, String.append_empty, String.append_empty]
    refine ⟨rfl, eq_error_of_wp ?_⟩
    rw [wp_bind, wp_popMany, hpop']
    exact ⟨rfl, rfl⟩
  · have hprinted : m.printed (.print count) =
        String.join ((m.stack.items.take count.toNat).reverse.map Value.text) ++ "\n" :=
      if_pos (Nat.not_lt.mp hshort)
    have hpop : m.stack.popMany count.toNat = .ok ((m.stack.items.take count.toNat).reverse,
        { m.stack with items := m.stack.items.drop count.toNat }) := if_neg hshort
    have hpop' : (m.asking text).stack.popMany count.toNat =
        .ok ((m.stack.items.take count.toNat).reverse,
          { m.stack with items := m.stack.items.drop count.toNat }) := hpop
    rw [hprinted, hpop]
    refine ⟨rfl, eq_ok_of_wp ?_⟩
    rw [wp_bind, wp_popMany, hpop']
    exact ⟨rfl, rfl⟩

end Inserts

/-- **One instruction, with and without questions.** -/
theorem execute_inserts (next : Nat) (i : Instruction) {m : Machine}
    (hm : m.options.prompt = false) :
    Inserts i.question (m.printed i) (execute next i) m := by
  cases i with
  | print count => exact .print count next m
  | read tag =>
    exact .bind (.readValue tag hm) fun v => .bind (.push v) fun _ => .pure next
  | push v => exact .ofUnheard (.bind (.push v) fun _ => .pure next) m
  | pop => exact .ofUnheard (.bind .pop fun _ => .pure next) m
  | load x =>
    refine .ofUnheard (.get (fun m => ?_) fun _ _ => rfl) m
    cases m.store.find? x with
    | some v => exact .bind (.push v) fun _ => .pure next
    | none => exact .throw (.undefinedVariable x)
  | save x =>
    refine .ofUnheard (.bind .pop fun v => .bind ?_ fun _ => .pure next) m
    exact fun _ _ => ⟨rfl, rfl⟩
  | label id => exact .ofUnheard (.pure next) m
  | jmp id => exact .ofUnheard (.resolve id) m
  | fjmp id =>
    refine .ofUnheard (.bind .pop fun v => ?_) m
    split
    · exact .pure next
    · exact .resolve id
    · exact .throw _
  | unary op => exact .ofUnheard (.bind .pop fun v => .pushResult next (op.apply v)) m
  | binary op =>
    refine .ofUnheard (.bind .pop fun right => .bind .pop fun left => ?_) m
    exact .pushResult next (op.apply left right)

-- ---------------------------------------------------------------------------
-- Steps and runs
-- ---------------------------------------------------------------------------

/-- Where no instruction is executed, nothing changes. -/
theorem step_asking_idle {m : Machine} (hentry : m.record? = none) (text : String) :
    (m.asking text).step = (m.asking text, m.step.2) ∧ m.step.1 = m := by
  cases hi : m.code[m.ip]? with
  | none =>
    rw [step_of_end hi, step_of_end (m := m.asking text) hi]
    exact ⟨rfl, rfl⟩
  | some i =>
    cases hlimit : m.limitReached with
    | none =>
      rw [record?_of_some hi hlimit] at hentry
      cases hentry
    | some limit =>
      rw [step_of_limit hi hlimit, step_of_limit (m := m.asking text) hi hlimit]
      exact ⟨rfl, rfl⟩

theorem step_asking_entry {m : Machine} (hm : m.options.prompt = false) {e : Entry}
    (hentry : m.record? = some e) (text : String) :
    (m.asking text).step = (m.step.1.asking (text ++ e.asked), m.step.2) ∧
      m.step.1.output = m.output ++ e.printed ∧ m.step.1.steps = m.steps + 1 := by
  have hinserts : ∀ {i : Instruction},
      Inserts i.question (m.printed i) (execute (m.ip + 1) i) { m with steps := m.steps + 1 } :=
    fun {i} => execute_inserts (m.ip + 1) i (m := { m with steps := m.steps + 1 }) hm
  have hapart : Apart Machine.steps := ⟨fun _ _ => rfl, fun _ _ => rfl, fun _ _ => rfl⟩
  have hcases := step_cases m
  generalize m.step = result at hcases
  cases hcases with
  | halted hi =>
    rw [record?, hi] at hentry
    cases hentry
  | limited hi hlimit =>
    rw [record?, hi, hlimit] at hentry
    cases hentry
  | @executed i next n hi hlimit hrun =>
    rw [record?_of_some hi hlimit] at hentry
    cases hentry
    obtain ⟨houtput, hasking⟩ := (hinserts text).of_ok hrun
    obtain ⟨store, hsteps⟩ := (execute_keeps Machine.steps hapart _ _ _).of_ok hrun
    exact ⟨step_of_ok (m := m.asking text) hi hlimit hasking, houtput, hsteps⟩
  | @failed i f n hi hlimit hrun =>
    rw [record?_of_some hi hlimit] at hentry
    cases hentry
    obtain ⟨houtput, hasking⟩ := (hinserts text).of_error hrun
    obtain ⟨hsteps, -⟩ := (execute_keeps Machine.steps hapart _ _ _).of_error hrun
    exact ⟨step_of_error (m := m.asking text) hi hlimit hasking, houtput, hsteps⟩

/-- **One step, with and without questions.** -/
theorem step_asking {m : Machine} (hm : m.options.prompt = false) (text : String) :
    (m.asking text).step =
        (m.step.1.asking (text ++ String.join (m.record?.toList.map Entry.asked)), m.step.2) ∧
      m.step.1.output = m.output ++ String.join (m.record?.toList.map Entry.printed) ∧
      m.step.1.steps = m.steps + m.record?.toList.length := by
  cases hentry : m.record? with
  | none =>
    obtain ⟨hasking, hsame⟩ := step_asking_idle hentry text
    rw [hasking, hsame]
    simp [asking]
  | some e =>
    obtain ⟨hasking, houtput, hsteps⟩ := step_asking_entry hm hentry text
    simpa using ⟨hasking, houtput, hsteps⟩

/-- How a run ends with the step. -/
def StepResult.ending? : StepResult → Option Ending
  | .executed => none
  | .halted => some .halted
  | .failed f => some (.failed f)

theorem runFor_of_last {m n : Machine} {result : StepResult} (h : m.step = (n, result))
    (hresult : result ≠ .executed) (k : Nat) : m.runFor (k + 1) = (n, result.ending?) := by
  cases result with
  | executed => exact absurd rfl hresult
  | halted => exact runFor_of_halted h k
  | failed f => exact runFor_of_failed h k

theorem journal_of_last {m n : Machine} {result : StepResult} (h : m.step = (n, result))
    (hresult : result ≠ .executed) (k : Nat) : m.journal (k + 1) = m.record?.toList := by
  cases result with
  | executed => exact absurd rfl hresult
  | _ => rw [journal, h, List.append_nil]

theorem journal_of_executed {m n : Machine} (h : m.step = (n, .executed)) (k : Nat) :
    m.journal (k + 1) = m.record?.toList ++ n.journal k := by
  rw [journal, h]

/-- **A run, with and without questions.** -/
theorem runFor_asking {m : Machine} (hm : m.options.prompt = false) (text : String) (k : Nat) :
    (m.asking text).runFor k =
        ((m.runFor k).1.asking (text ++ String.join ((m.journal k).map Entry.asked)),
          (m.runFor k).2) ∧
      (m.runFor k).1.output = m.output ++ String.join ((m.journal k).map Entry.printed) ∧
      (m.runFor k).1.steps = m.steps + (m.journal k).length := by
  induction k generalizing m text with
  | zero => simp [journal, runFor]
  | succ k ih =>
    obtain ⟨hasking, houtput, hsteps⟩ := step_asking hm text
    rcases hstep : m.step with ⟨n, result⟩
    rw [hstep] at hasking houtput hsteps
    by_cases hresult : result = .executed
    · subst hresult
      obtain ⟨hrun, hwritten, hcounted⟩ := ih ((step_options hstep).symm ▸ hm)
        (text ++ String.join (m.record?.toList.map Entry.asked))
      rw [runFor_of_executed hstep, runFor_of_executed hasking, journal_of_executed hstep,
        List.map_append, List.map_append, String.join_append, String.join_append,
        List.length_append, ← String.append_assoc, ← String.append_assoc, ← houtput,
        ← Nat.add_assoc, ← hsteps]
      exact ⟨hrun, hwritten, hcounted⟩
    · rw [runFor_of_last hstep hresult, runFor_of_last hasking hresult,
        journal_of_last hstep hresult]
      exact ⟨rfl, houtput, hsteps⟩

/-- **Asking for input does not influence execution**, whatever the code, the input and the
limits, and wherever the run is looked at.

1. With and without questions, the run has ended in the same way or not at all, and the
   machine is in the same state apart from what was written.
2. There is an entry in the journal for each step, and what was written is what the
   entries printed. With questions, it is the same with `Input ⋯:` on a line of its own in
   the place of each instruction that reads, also of one that failed. -/
theorem prompting_inserts_questions (code : Code) (o : Options) (input : List UInt8) (k : Nat) :
    let quiet := (start code { o with prompt := false } input).runFor k
    let asking := (start code { o with prompt := true } input).runFor k
    let log := (start code { o with prompt := false } input).journal k
    (asking.2 = quiet.2 ∧ asking.1.ip = quiet.1.ip ∧ asking.1.steps = quiet.1.steps ∧
        asking.1.stack = quiet.1.stack ∧ asking.1.store = quiet.1.store ∧
        asking.1.input = quiet.1.input) ∧
      log.length = quiet.1.steps ∧
      quiet.1.output = String.join (log.map Entry.printed) ∧
      asking.1.output = String.join (log.map Entry.asked) := by
  intro quiet asking log
  obtain ⟨hasking, houtput, hsteps⟩ :=
    runFor_asking (m := start code { o with prompt := false } input) rfl "" k
  have hrun : asking = (quiet.1.asking ("" ++ String.join (log.map Entry.asked)), quiet.2) :=
    hasking
  rw [String.empty_append] at hrun
  rw [hrun]
  exact ⟨⟨rfl, rfl, rfl, rfl, rfl, rfl⟩, by rw [hsteps]; exact (Nat.zero_add _).symm,
    houtput.trans String.empty_append, rfl⟩

-- The second value is missing. It was asked for all the same, behind the line that was
-- printed in between.
example :
    let code : Code := [.read .int, .print 1, .read .bool, .print 1]
    let input := utf8Bytes "7\n"
    let quiet := (start code {} input).runFor 9
    let asking := (start code { prompt := true } input).runFor 9
    quiet.2 = some (.failed .endOfInput) ∧ quiet.1.output = "7\n" ∧
      asking.1.output = "Input int:\n7\nInput bool:\n" := by
  decide +kernel

end Cairn.Machine
