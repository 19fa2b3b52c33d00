import Cairn.Proofs.Execution

/-!
# Cairn — limits only cut runs short

Two machines execute the same code on the same input, one of them with lower
limits on steps and stack. Until a limit stops that one, the two differ in their
limits only. What was written is never taken back, so what the stopped machine
wrote is the first part of what the other one writes.

## Main definitions

* `Options.Tighter` — limits that are not above others.
* `Machine.under`   — a machine with other limits.

## Main statements

* `Machine.step_follows`   — one step, under both limits.
* `Machine.runFor_follows` — a run, under both limits.
* `Machine.ends_of_maxSteps` — a limit on steps ends every run.
* `Machine.limits_cut_short` — what follows for runs from the start.
-/

namespace Cairn

/-- The limits of `o` are not above those of `o'`, and both ask for input alike. To
have no limit on steps is to have the highest one. -/
structure Options.Tighter (o o' : Options) : Prop where
  prompt : o.prompt = o'.prompt
  maxStack : o.maxStack ≤ o'.maxStack
  maxSteps : ∀ limit', o'.maxSteps = some limit' →
    ∃ limit, o.maxSteps = some limit ∧ limit ≤ limit'

namespace Machine

/-- The machine with other limits. -/
def under (o : Options) (m : Machine) : Machine :=
  { m with options := o, stack := { m.stack with limit := o.maxStack } }

/-- What the machine wrote starts with the text. -/
def Wrote (text : String) (m : Machine) : Prop :=
  ∃ more, m.output = text ++ more

theorem wrote_self (m : Machine) : m.Wrote m.output :=
  ⟨"", String.append_empty.symm⟩

theorem Wrote.write {text : String} {m : Machine} (h : m.Wrote text) (s : String) :
    Wrote text { m with output := m.output ++ s } := by
  obtain ⟨more, hmore⟩ := h
  refine ⟨more ++ s, ?_⟩
  show m.output ++ s = _
  rw [hmore, String.append_assoc]

-- ---------------------------------------------------------------------------
-- Actions under other limits
-- ---------------------------------------------------------------------------

/-- However the action ends, the machine that it leaves satisfies `P`. -/
def Leaves {α : Type} (x : Action α) (P : Machine → Prop) (m : Machine) : Prop :=
  wp x (fun _ => P) (fun _ => P) m

/-- The options give the stack no less room, and ask for input alike. -/
structure Room (o : Options) (m : Machine) : Prop where
  prompt : m.options.prompt = o.prompt
  limit_le : m.stack.limit ≤ o.maxStack

/-- The action does the same under `o` where there is no less room, unless a limit
stops it; and it takes nothing back that was written. -/
structure Lifts {α : Type} (o : Options) (x : Action α) : Prop where
  grows : ∀ {m : Machine} {text : String}, m.Wrote text → Leaves x (Wrote text) m
  same : ∀ {m : Machine}, m.Room o →
    wp x (fun a n => n.Room o ∧ x (m.under o) = .ok a (n.under o))
      (fun f n => f.isLimit ∧ Leaves x (Wrote n.output) (m.under o) ∨
        x (m.under o) = .error f (n.under o)) m

theorem bind_of_ok {α β : Type} {x : Action α} {g : α → Action β} {m n : Machine} {a : α}
    (h : x m = .ok a n) : (x >>= g) m = g a n := by
  show EStateM.bind x g m = g a n
  rw [EStateM.bind, h]

theorem bind_of_error {α β : Type} {x : Action α} {g : α → Action β} {m n : Machine} {f : Fault}
    (h : x m = .error f n) : (x >>= g) m = .error f n := by
  show EStateM.bind x g m = .error f n
  rw [EStateM.bind, h]

theorem eq_ok_of_wp {α : Type} {x : Action α} {m n : Machine} {a : α}
    (h : wp x (fun a' n' => a' = a ∧ n' = n) (fun _ _ => False) m) : x m = .ok a n := by
  rw [wp] at h
  cases hrun : x m with
  | ok a' n' =>
    rw [hrun] at h
    obtain ⟨rfl, rfl⟩ := h
    rfl
  | error f n' =>
    rw [hrun] at h
    exact h.elim

theorem eq_error_of_wp {α : Type} {x : Action α} {m n : Machine} {f : Fault}
    (h : wp x (fun _ _ => False) (fun f' n' => f' = f ∧ n' = n) m) : x m = .error f n := by
  rw [wp] at h
  cases hrun : x m with
  | ok a' n' =>
    rw [hrun] at h
    exact h.elim
  | error f' n' =>
    rw [hrun] at h
    obtain ⟨rfl, rfl⟩ := h
    rfl

namespace Lifts

variable {α β : Type} {o : Options}

theorem bind {x : Action α} {g : α → Action β} (hx : Lifts o x) (hg : ∀ a, Lifts o (g a)) :
    Lifts o (x >>= g) where
  grows := fun hm =>
    wp_bind.mpr ((hx.grows hm).mono (fun a _ hn => (hg a).grows hn) fun _ _ hn => hn)
  same := by
    intro m hm
    have hsame := hx.same hm
    rw [wp] at hsame
    rw [wp_bind, wp]
    cases hrun : x m with
    | ok a n =>
      rw [hrun] at hsame
      obtain ⟨hn, hunder⟩ := hsame
      rw [bind_of_ok hunder]
      show wp (g a) _ _ n
      refine ((hg a).same hn).mono (fun _ _ h => h) fun f n' h => ?_
      rcases h with ⟨hf, hleaves⟩ | herror
      · refine .inl ⟨hf, ?_⟩
        rw [Leaves, wp, bind_of_ok hunder]
        exact hleaves
      · exact .inr herror
    | error f n =>
      rw [hrun] at hsame
      rcases hsame with ⟨hf, hleaves⟩ | herror
      · -- under the other limits the action may go on, and writes more at most
        refine .inl ⟨hf, wp_bind.mpr (hleaves.mono (fun a n' hn' => ?_) fun _ _ hn' => hn')⟩
        exact (hg a).grows hn'
      · exact .inr (bind_of_error herror)

theorem pure (a : α) : Lifts o (Pure.pure a) where
  grows hm := hm
  same hm := ⟨hm, rfl⟩

theorem throw (f : Fault) : Lifts o (MonadExcept.throw f : Action α) where
  grows hm := hm
  same _ := .inr rfl

theorem write (text : String) : Lifts o (Machine.write text) where
  grows hm := hm.write text
  same hm := ⟨⟨hm.prompt, hm.limit_le⟩, rfl⟩

theorem push (v : Value) : Lifts o (Machine.push v) := by
  have hgrows : ∀ {m : Machine} {text : String}, m.Wrote text →
      Leaves (Machine.push v) (Wrote text) m := by
    intro m text hm
    rw [Leaves, wp_push]
    cases m.stack.push v <;> exact hm
  refine ⟨hgrows, fun {m} hm => ?_⟩
  rw [wp_push]
  by_cases hfull : m.stack.limit ≤ m.stack.depth
  · have hpush : m.stack.push v = .error (.stackOverflow m.stack.limit) := if_pos hfull
    rw [hpush]
    exact .inl ⟨rfl, hgrows (wrote_self (m.under o))⟩
  · have hpush : m.stack.push v = .ok { m.stack with items := v :: m.stack.items } := if_neg hfull
    have hroom : ¬ o.maxStack ≤ m.stack.depth := by
      have hlimit := hm.limit_le
      omega
    have hunder : (m.under o).stack.push v = .ok ⟨v :: m.stack.items, o.maxStack⟩ := if_neg hroom
    rw [hpush]
    refine ⟨⟨hm.prompt, hm.limit_le⟩, eq_ok_of_wp ?_⟩
    rw [wp_push, hunder]
    exact ⟨rfl, rfl⟩

theorem pop : Lifts o Machine.pop := by
  refine ⟨fun {m text} hm => ?_, fun {m} hm => ?_⟩
  · rw [Leaves, wp_pop]
    cases m.stack.pop <;> exact hm
  · obtain ⟨code, options, ip, steps, ⟨items, limit⟩, store, input, output⟩ := m
    cases items with
    | nil => exact .inr rfl
    | cons v rest => exact ⟨⟨hm.prompt, hm.limit_le⟩, rfl⟩

theorem popMany (count : Nat) : Lifts o (Machine.popMany count) := by
  refine ⟨fun {m text} hm => ?_, fun {m} hm => ?_⟩
  · rw [Leaves, wp_popMany]
    cases m.stack.popMany count <;> exact hm
  · rw [wp_popMany]
    by_cases hshort : m.stack.depth < count
    · have hpop : m.stack.popMany count = .error .stackUnderflow := if_pos hshort
      have hunder : (m.under o).stack.popMany count = .error .stackUnderflow := if_pos hshort
      rw [hpop]
      refine .inr (eq_error_of_wp ?_)
      rw [wp_popMany, hunder]
      exact ⟨rfl, rfl⟩
    · have hpop : m.stack.popMany count = .ok ((m.stack.items.take count).reverse,
          { m.stack with items := m.stack.items.drop count }) := if_neg hshort
      have hunder : (m.under o).stack.popMany count = .ok ((m.stack.items.take count).reverse,
          ⟨m.stack.items.drop count, o.maxStack⟩) := if_neg hshort
      rw [hpop]
      refine ⟨⟨hm.prompt, hm.limit_le⟩, eq_ok_of_wp ?_⟩
      rw [wp_popMany, hunder]
      exact ⟨rfl, rfl⟩

/-- An action that looks at the machine first, but not at its limits. -/
theorem get {k : Machine → Action α} (hk : ∀ m, Lifts o (k m))
    (hunder : ∀ m, m.Room o → k (m.under o) = k m) :
    Lifts o (MonadState.get >>= k) where
  grows := fun {m _} hm => wp_bind.mpr ((hk m).grows hm)
  same := by
    intro m hm
    have hlook : (MonadState.get >>= k) (m.under o) = k m (m.under o) := by
      rw [← hunder m hm]
      exact bind_of_ok rfl
    have hleaves : ∀ {P}, Leaves (k m) P (m.under o) →
        Leaves (MonadState.get >>= k) P (m.under o) := by
      intro P h
      rw [Leaves, wp, hlook]
      exact h
    rw [wp_bind, wp_get]
    refine ((hk m).same hm).mono (fun a n h => ⟨h.1, hlook.trans h.2⟩) fun f n h => ?_
    exact h.imp (fun hcut => ⟨hcut.1, hleaves hcut.2⟩) hlook.trans

theorem resolve (id : UInt32) : Lifts o (Machine.resolve id) := by
  refine get (fun m => ?_) fun _ _ => rfl
  cases Code.labelIndex? m.code id with
  | some index => exact pure (index + 1)
  | none => exact throw (.unresolvedLabel id)

theorem readLine : Lifts o Machine.readLine := by
  refine ⟨fun {m text} hm => ?_, fun {m} hm => ?_⟩
  · rw [Leaves, readLine_eq, wp_bind, wp_get]
    split
    · exact hm
    · rw [wp_bind, wp_set]
      cases ofUtf8? (takeLine m.input).1 <;> exact hm
  · rw [readLine_eq, wp_bind, wp_get]
    have hinput : (m.under o).input = m.input := rfl
    by_cases hempty : m.input.isEmpty
    · rw [if_pos hempty]
      refine .inr (eq_error_of_wp ?_)
      rw [wp_bind, wp_get, hinput, if_pos hempty]
      exact ⟨rfl, rfl⟩
    · rw [if_neg hempty, wp_bind, wp_set]
      cases htext : ofUtf8? (takeLine m.input).1 with
      | some text =>
        refine ⟨⟨hm.prompt, hm.limit_le⟩, eq_ok_of_wp ?_⟩
        rw [wp_bind, wp_get, hinput, if_neg hempty, wp_bind, wp_set, htext]
        exact ⟨rfl, rfl⟩
      | none =>
        refine .inr (eq_error_of_wp ?_)
        rw [wp_bind, wp_get, hinput, if_neg hempty, wp_bind, wp_set, htext]
        exact ⟨rfl, rfl⟩

theorem readValue (tag : Tag) : Lifts o (Machine.readValue tag) := by
  have hvalue : Lifts o (Machine.readLine >>= lineValue tag) := by
    refine bind readLine fun line => ?_
    rw [lineValue]
    cases Value.ofLine? tag line with
    | some v => exact pure v
    | none => exact throw (.invalidInput tag.ty (String.ofList line))
  rw [readValue_eq]
  refine get (fun m => ?_) fun m hm => ?_
  · split
    · exact bind (write _) fun _ => hvalue
    · exact hvalue
  · have hprompt : (m.under o).options.prompt = m.options.prompt := hm.prompt.symm
    rw [hprompt]

theorem pushResult (next : Nat) (result : Except Fault Value) :
    Lifts o (Machine.pushResult next result) := by
  cases result with
  | ok v => exact bind (push v) fun _ => pure next
  | error f => exact throw f

end Lifts

/-- Every instruction does the same under other limits, unless a limit stops it. -/
theorem execute_lifts (o : Options) (next : Nat) (i : Instruction) : Lifts o (execute next i) := by
  cases i with
  | push v => exact .bind (.push v) fun _ => .pure next
  | pop => exact .bind .pop fun _ => .pure next
  | load x =>
    refine .get (fun m => ?_) fun _ _ => rfl
    cases m.store.find? x with
    | some v => exact .bind (.push v) fun _ => .pure next
    | none => exact .throw (.undefinedVariable x)
  | save x =>
    refine .bind .pop fun v => .bind ?_ fun _ => .pure next
    exact ⟨fun hm => hm, fun hm => ⟨⟨hm.prompt, hm.limit_le⟩, rfl⟩⟩
  | label id => exact .pure next
  | jmp id => exact .resolve id
  | fjmp id =>
    refine .bind .pop fun v => ?_
    split
    · exact .pure next
    · exact .resolve id
    · exact .throw _
  | print count => exact .bind (.popMany _) fun _ => .bind (.write _) fun _ => .pure next
  | read tag => exact .bind (.readValue tag) fun v => .bind (.push v) fun _ => .pure next
  | unary op =>
    rw [execute_unary]
    exact .bind .pop fun v => .pushResult next _
  | binary op =>
    rw [execute_binary]
    exact .bind .pop fun right => .bind .pop fun left => .pushResult next _

-- ---------------------------------------------------------------------------
-- Steps under other limits
-- ---------------------------------------------------------------------------

variable {o : Options} {m n : Machine}

/-- What a step under `o` comes to, next to the step that gives this result: the
same but for the limits, or all that was written before a limit, and more. -/
inductive Follows (o : Options) (m : Machine) : Machine × StepResult → Prop
  | same {n : Machine} {r : StepResult} (hroom : r = .executed → n.Room o)
    (hstep : (m.under o).step = (n.under o, r)) : Follows o m (n, r)
  | cut {n : Machine} {f : Fault} (hf : f.isLimit) (hwrote : (m.under o).step.1.Wrote n.output) :
    Follows o m (n, .failed f)

/-- A step takes nothing back that was written. -/
theorem step_wrote {text : String} (hm : m.Wrote text) : m.step.1.Wrote text := by
  have hcounted : Wrote text { m with steps := m.steps + 1 } := hm
  have hcases := step_cases m
  generalize m.step = result at hcases
  cases hcases with
  | halted => exact hm
  | limited => exact hm
  | executed hi hlimit hrun =>
    have hwrote := ((execute_lifts {} _ _).grows hcounted).of_ok hrun
    exact hwrote
  | failed hi hlimit hrun => exact ((execute_lifts {} _ _).grows hcounted).of_error hrun

/-- **One step under both limits**, if the one on steps lets it happen. -/
theorem step_follows (hm : m.Room o)
    (htime : m.limitReached = none → (m.under o).limitReached = none) : Follows o m m.step := by
  have hcounted : Room o { m with steps := m.steps + 1 } := ⟨hm.prompt, hm.limit_le⟩
  have hcases := step_cases m
  generalize m.step = result at hcases
  cases hcases with
  | halted hi => exact .same (fun _ => hm) (step_of_end (m := m.under o) hi)
  | limited hi hlimit => exact .cut rfl (step_wrote (wrote_self (m.under o)))
  | @executed i next n hi hlimit hrun =>
    obtain ⟨hroom, hunder⟩ := ((execute_lifts o (m.ip + 1) i).same hcounted).of_ok hrun
    exact .same (fun _ => ⟨hroom.prompt, hroom.limit_le⟩)
      (step_of_ok (m := m.under o) hi (htime hlimit) hunder)
  | @failed i f n hi hlimit hrun =>
    rcases ((execute_lifts o (m.ip + 1) i).same hcounted).of_error hrun with ⟨hf, hleaves⟩ | hunder
    · refine .cut hf ?_
      cases hrun' : execute (m.ip + 1) i { m.under o with steps := m.steps + 1 } with
      | ok next n' =>
        rw [step_of_ok (m := m.under o) hi (htime hlimit) hrun']
        have hwrote := hleaves.of_ok hrun'
        exact hwrote
      | error f' n' =>
        rw [step_of_error (m := m.under o) hi (htime hlimit) hrun']
        exact hleaves.of_error hrun'
    · exact .same (fun h => by cases h) (step_of_error (m := m.under o) hi (htime hlimit) hunder)

/-- A step counts. -/
theorem step_steps (h : m.step = (n, .executed)) : n.steps = m.steps + 1 := by
  have hcases := step_cases m
  rw [h] at hcases
  cases hcases with
  | executed hi hlimit hrun =>
    have hapart : Apart Machine.steps := ⟨fun _ _ => rfl, fun _ _ => rfl, fun _ _ => rfl⟩
    obtain ⟨store, hsteps⟩ := (execute_keeps Machine.steps hapart _ _ _).of_ok hrun
    exact hsteps

theorem limitReached_eq_none : m.limitReached = none ↔
    ∀ limit, m.options.maxSteps = some limit → m.steps < limit := by
  rw [limitReached]
  simp only [Option.filter_eq_none_iff, decide_eq_true_eq, Nat.not_le]

/-- A step is made only before the limit. -/
theorem steps_lt_of_executed {limit : Nat} (h : m.step = (n, .executed))
    (hlimit : m.options.maxSteps = some limit) : m.steps < limit := by
  have hcases := step_cases m
  rw [h] at hcases
  cases hcases with
  | executed hi hnone hrun => exact limitReached_eq_none.mp hnone limit hlimit

-- ---------------------------------------------------------------------------
-- Runs under other limits
-- ---------------------------------------------------------------------------

/-- What a step leaves written stands at the beginning of what the run writes. -/
theorem runFor_succ_wrote {text : String} (hm : m.step.1.Wrote text) (k : Nat) :
    (m.runFor (k + 1)).1.Wrote text := by
  induction k generalizing m with
  | zero =>
    rcases hstep : m.step with ⟨n, result⟩
    rw [hstep] at hm
    cases result with
    | executed => rwa [runFor_of_executed hstep]
    | halted => rwa [runFor_of_halted hstep]
    | failed f => rwa [runFor_of_failed hstep]
  | succ k ih =>
    rcases hstep : m.step with ⟨n, result⟩
    rw [hstep] at hm
    cases result with
    | executed =>
      rw [runFor_of_executed hstep]
      exact ih (step_wrote hm)
    | halted => rwa [runFor_of_halted hstep]
    | failed f => rwa [runFor_of_failed hstep]

/-- **A run under both limits.** It is the same but for the limits, or it was cut
short by one, and then all that it wrote is written by the longer runs too. -/
theorem runFor_follows (hm : m.Room o) (ho : m.options.Tighter o) (k : Nat) :
    (m.under o).runFor k = ((m.runFor k).1.under o, (m.runFor k).2) ∨
      ∃ f, (m.runFor k).2 = some (.failed f) ∧ f.isLimit ∧
        ∀ j, k ≤ j → ((m.under o).runFor j).1.Wrote (m.runFor k).1.output := by
  induction k generalizing m with
  | zero => exact .inl rfl
  | succ k ih =>
    have htime : m.limitReached = none → (m.under o).limitReached = none := by
      rw [limitReached_eq_none, limitReached_eq_none]
      intro hbefore limit' hlimit'
      obtain ⟨limit, hlimit, hle⟩ := ho.maxSteps limit' hlimit'
      exact Nat.lt_of_lt_of_le (hbefore limit hlimit) hle
    have hfollows := step_follows hm htime
    rcases hstep : m.step with ⟨n, result⟩
    rw [hstep] at hfollows
    cases hfollows with
    | same hroom hunder =>
      cases result with
      | executed =>
        rw [runFor_of_executed hstep, runFor_of_executed hunder]
        have hn : n.options.Tighter o := (step_options hstep).symm ▸ ho
        refine (ih (hroom rfl) hn).imp id ?_
        rintro ⟨f, hf, hlimit, hwrote⟩
        refine ⟨f, hf, hlimit, fun j hj => ?_⟩
        obtain ⟨j, rfl⟩ : ∃ i, j = i + 1 := ⟨j - 1, by omega⟩
        rw [runFor_of_executed hunder]
        exact hwrote j (by omega)
      | halted =>
        rw [runFor_of_halted hstep, runFor_of_halted hunder]
        exact .inl rfl
      | failed f =>
        rw [runFor_of_failed hstep, runFor_of_failed hunder]
        exact .inl rfl
    | @cut _ f hf hwrote =>
      rw [runFor_of_failed hstep]
      refine .inr ⟨f, rfl, hf, fun j hj => ?_⟩
      obtain ⟨j, rfl⟩ : ∃ i, j = i + 1 := ⟨j - 1, by omega⟩
      exact runFor_succ_wrote hwrote j

/-- **A limit on steps ends every run.** -/
theorem ends_of_maxSteps {limit k : Nat} (hlimit : m.options.maxSteps = some limit)
    (hk : limit ≤ m.steps + k) : ∃ n e, m.runFor (k + 1) = (n, some e) := by
  induction k generalizing m with
  | zero =>
    rcases hstep : m.step with ⟨n, result⟩
    cases result with
    | executed =>
      have hlt := steps_lt_of_executed hstep hlimit
      omega
    | halted => exact ⟨n, _, runFor_of_halted hstep 0⟩
    | failed f => exact ⟨n, _, runFor_of_failed hstep 0⟩
  | succ k ih =>
    rcases hstep : m.step with ⟨n, result⟩
    cases result with
    | executed =>
      rw [runFor_of_executed hstep]
      have hsteps := step_steps hstep
      exact ih ((step_options hstep).symm ▸ hlimit) (by omega)
    | halted => exact ⟨n, _, runFor_of_halted hstep (k + 1)⟩
    | failed f => exact ⟨n, _, runFor_of_failed hstep (k + 1)⟩

/-- A machine that halts is at the end of its code, or a step in front of one that halts. -/
theorem halts_succ {k : Nat} (hrun : m.runFor (k + 1) = (n, some .halted)) :
    (m.code[m.ip]? = none ∧ n = m) ∨
      ∃ m', m.step = (m', .executed) ∧ m'.runFor k = (n, some .halted) := by
  rcases hstep : m.step with ⟨m', result⟩
  cases result with
  | executed =>
    rw [runFor_of_executed hstep] at hrun
    exact .inr ⟨m', rfl, hrun⟩
  | halted =>
    rw [runFor_of_halted hstep] at hrun
    cases hrun
    obtain ⟨rfl, hi⟩ := step_halted hstep
    exact .inl ⟨hi, rfl⟩
  | failed f =>
    rw [runFor_of_failed hstep] at hrun
    cases hrun

/-- A machine that halts has made no more steps than it may. -/
theorem steps_le_of_halts {limit k : Nat} (hlimit : m.options.maxSteps = some limit)
    (hm : m.steps ≤ limit) (hrun : m.runFor k = (n, some .halted)) : n.steps ≤ limit := by
  induction k generalizing m with
  | zero => cases hrun
  | succ k ih =>
    rcases halts_succ hrun with ⟨-, rfl⟩ | ⟨m', hstep, hrun⟩
    · exact hm
    · have hsteps := step_steps hstep
      have hlt := steps_lt_of_executed hstep hlimit
      exact ih ((step_options hstep).symm ▸ hlimit) (by omega) hrun

theorem steps_le_of_runFor {k : Nat} (hrun : m.runFor k = (n, some .halted)) :
    m.steps ≤ n.steps := by
  induction k generalizing m with
  | zero => cases hrun
  | succ k ih =>
    rcases halts_succ hrun with ⟨-, rfl⟩ | ⟨m', hstep, hrun⟩
    · exact Nat.le_refl _
    · have hsteps := step_steps hstep
      have hle := ih hrun
      omega

/-- A run that halts does so under any limit on steps that it keeps to. -/
theorem halts_under {k : Nat} (hm : m.Room o) (hrun : m.runFor k = (n, some .halted))
    (hlimit : ∀ limit, o.maxSteps = some limit → n.steps ≤ limit) :
    (m.under o).runFor k = (n.under o, some .halted) := by
  induction k generalizing m with
  | zero => cases hrun
  | succ k ih =>
    rcases halts_succ hrun with ⟨hi, rfl⟩ | ⟨m', hstep, hrun⟩
    · exact runFor_of_halted (step_of_end (m := n.under o) hi) k
    · -- this step is one of those that the limit allows
      have htime : (m.under o).limitReached = none := by
        rw [limitReached_eq_none]
        intro limit hmax
        show m.steps < limit
        have hsteps := step_steps hstep
        have hle := steps_le_of_runFor hrun
        have hn := hlimit limit hmax
        omega
      have hfollows := step_follows hm fun _ => htime
      rw [hstep] at hfollows
      cases hfollows with
      | same hroom hunder =>
        rw [runFor_of_executed hunder]
        exact ih (hroom rfl) hrun

/-- **Limits only cut runs short**, whatever code they are runs of. If a run ends
otherwise than by a limit, it ends so under higher limits, after as many steps and
in the same state. What a run wrote before a limit is written under higher limits
too, before anything else. A limit on steps ends every run, and those that halt
are the ones that halt in so many steps without it. -/
theorem limits_cut_short (code : Code) (input : List UInt8) {o o' : Options} (h : o.Tighter o') :
    (∀ k m e, (start code o input).runFor k = (m, some e) →
      (∀ f, e = .failed f → f.isLimit = false) →
      ∃ m', (start code o' input).runFor k = (m', some e) ∧ m'.output = m.output ∧
        m'.store = m.store ∧ m'.ip = m.ip ∧ m'.steps = m.steps) ∧
    (∀ k m f, (start code o input).runFor k = (m, some (.failed f)) → f.isLimit →
      ∀ j, k ≤ j → ∃ more, ((start code o' input).runFor j).1.output = m.output ++ more) ∧
    (∀ limit, o.maxSteps = some limit →
      (∃ k m e, (start code o input).runFor k = (m, some e)) ∧
      ((∃ k m, (start code o input).runFor k = (m, some .halted)) ↔
        ∃ k m, (start code { o with maxSteps := none } input).runFor k = (m, some .halted) ∧
          m.steps ≤ limit)) := by
  have hroom : ∀ {o o' : Options}, o.Tighter o' → (start code o input).Room o' :=
    fun h => ⟨h.prompt, h.maxStack⟩
  have hfollows := fun k => runFor_follows (hroom h) h k
  refine ⟨?_, ?_, ?_⟩
  · intro k m e hrun he
    have hk := hfollows k
    rw [hrun] at hk
    rcases hk with hsame | ⟨f, hf, hlimit, -⟩
    · exact ⟨m.under o', hsame, rfl, rfl, rfl, rfl⟩
    · have hnot := he f (Option.some.inj hf)
      rw [hnot] at hlimit
      cases hlimit
  · intro k m f hrun hf j hj
    have hk := hfollows k
    rw [hrun] at hk
    rcases hk with hsame | ⟨f, -, -, hwrote⟩
    · have hstable := runFor_stable hsame hj
      refine ⟨"", ?_⟩
      show (((start code o input).under o').runFor j).1.output = _
      rw [hstable, String.append_empty]
      rfl
    · exact hwrote j hj
  · intro limit hlimit
    obtain ⟨m, e, hend⟩ := ends_of_maxSteps (m := start code o input) (k := limit) hlimit (by omega)
    refine ⟨⟨limit + 1, m, e, hend⟩, ?_, ?_⟩
    · rintro ⟨k, m, hrun⟩
      have hfree : o.Tighter { o with maxSteps := none } :=
        ⟨rfl, Nat.le_refl _, fun _ h => by cases h⟩
      have hk := runFor_follows (hroom hfree) hfree k
      rw [hrun] at hk
      rcases hk with hsame | ⟨f, hf, -⟩
      · have hsteps := steps_le_of_halts (m := start code o input) hlimit (Nat.zero_le _) hrun
        exact ⟨k, _, hsame, hsteps⟩
      · cases hf
    · rintro ⟨k, m, hrun, hsteps⟩
      have hback : (start code { o with maxSteps := none } input).Room o := ⟨rfl, Nat.le_refl _⟩
      refine ⟨k, m.under o, halts_under hback hrun fun limit' hlimit' => ?_⟩
      rw [hlimit] at hlimit'
      cases hlimit'
      exact hsteps

/-- A stack of one value is too small for the second line. -/
theorem limits_cut_short_overflow :
    let code : Code := [.push (.str "a"), .print 1, .push (.int 1), .push (.int 2), .print 2]
    let low : Options := { maxStack := 1, maxSteps := some 5 }
    let high : Options := { maxStack := 2 }
    let short := (start code low []).runFor 6
    let long := (start code high []).runFor 6
    low.Tighter high ∧ short.2 = some (.failed (.stackOverflow 1)) ∧ short.1.output = "a\n" ∧
      long.1.output = "a\n12\n" ∧ ∃ more, long.1.output = short.1.output ++ more := by
  intro code low high short long
  have hlow : low.Tighter high := ⟨rfl, by decide, fun _ h => by cases h⟩
  have hcut := (limits_cut_short code [] hlow).2.1
  have hshort : short.2 = some (.failed (.stackOverflow 1)) := by decide +kernel
  have hlong : long.1.output = "a\n12\n" := by decide +kernel
  have houtput : short.1.output = "a\n" := by decide +kernel
  refine ⟨hlow, hshort, houtput, hlong, ?_⟩
  exact hcut 6 short.1 (.stackOverflow 1) (Prod.ext rfl hshort) rfl 6 (Nat.le_refl _)

end Machine

end Cairn
