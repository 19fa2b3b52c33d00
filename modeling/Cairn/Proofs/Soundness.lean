import Cairn.Proofs.Correctness

/-!
# Cairn — checked programs do not go wrong

Code that was compiled without diagnostics never finds the stack empty, an
operand of the wrong type or a label missing, whatever it reads and wherever a
limit stops it. At every moment each name holds a value that is fit for the
type it was declared with.

## Main statements

* `Program.machine_sound` — the invariant of a run, up to its first failure.
-/

namespace Cairn

open Machine

/-- Faults of code that is not well formed. -/
def Fault.isInternal : Fault → Bool
  | .stackUnderflow | .typeFault _ _ | .unresolvedLabel _ => true
  | _ => false

/-- In the next `k` steps the world stays typed, and only good faults occur. -/
def Machine.SafeFor (Γ : Symbols) (good : Fault → Prop) (k : Nat) (m : Machine) : Prop :=
  ∀ n ≤ k, (m.runFor n).1.world.Typed Γ ∧ ∀ f, (m.runFor n).2 = some (.failed f) → good f

namespace Machine

variable {Γ : Symbols} {good : Fault → Prop} {k : Nat} {m m' : Machine}

/-- A machine that stops at once. -/
theorem SafeFor.of_stop {e : Ending} (hm : m.world.Typed Γ) (hm' : m'.world.Typed Γ)
    (he : ∀ f, e = .failed f → good f) (hrun : ∀ n, m.runFor (n + 1) = (m', some e)) :
    m.SafeFor Γ good k := by
  intro n _
  cases n with
  | zero => exact ⟨hm, fun f hf => by cases hf⟩
  | succ n =>
    rw [hrun n]
    exact ⟨hm', fun f hf => he f (Option.some.inj hf)⟩

theorem typed_of_failed {f : Fault} (h : m.step = (m', .failed f)) :
    m'.world.Typed Γ ↔ m.world.Typed Γ := by
  have hstore := (step_failed h).1
  rw [World.Typed, World.Typed, world, world, hstore]

theorem stepwise_safeFor (Γ : Symbols) (hlimit : ∀ f : Fault, f.isLimit → good f) :
    Stepwise Γ (SafeFor Γ good) where
  zero := by
    intro m hm n hn
    obtain rfl := Nat.le_zero.mp hn
    exact ⟨hm, fun f hf => by cases hf⟩
  succ k :=
    { step := by
        intro m m' hm hstep h n hn
        cases n with
        | zero => exact ⟨hm, fun f hf => by cases hf⟩
        | succ n =>
          rw [runFor_of_executed hstep]
          exact h n (Nat.le_of_succ_le_succ hn)
      limit := by
        intro m m' f hm hstep hf
        refine SafeFor.of_stop hm ((typed_of_failed hstep).mpr hm) ?_ (runFor_of_failed hstep)
        rintro g hg
        cases hg
        exact hlimit f hf }
  down h := fun n hn => h n (Nat.le_succ_of_le hn)

/-- At an outcome in a typed world nothing goes wrong any more. -/
theorem safeFor_of_outcome {o : Finish} (ho : o.Sound Γ) (hgood : ∀ f w, o = .fault f w → good f)
    {code : Code} {options : Options} {items : List Value} :
    o.Satisfies (HoldsAt code options (SafeFor Γ good k) code.length items)
      (HoldsOnFault (SafeFor Γ good k)) := by
  cases o with
  | done w =>
    refine holdsAt_end fun m hstep hworld => ?_
    have hm : m.world.Typed Γ := hworld ▸ ho
    exact SafeFor.of_stop hm hm (fun f hf => by cases hf) (runFor_of_halted hstep)
  | fault f w =>
    intro m m' hstep hworld
    have hm' : m'.world.Typed Γ := hworld ▸ ho.2
    refine SafeFor.of_stop ((typed_of_failed hstep).mp hm') hm' ?_ (runFor_of_failed hstep)
    rintro g hg
    cases hg
    exact hgood f w rfl

end Machine

/-- A run is safe if the limits and the outcomes of the program are. -/
theorem Program.Checked.safeFor {program : Program} {options : Options} {input : List UInt8}
    {good : Fault → Prop} (hprogram : program.Checked) (hmax : options.maxStack < UInt64.size)
    (hlimit : ∀ f : Fault, f.isLimit → good f)
    (hrun : ∀ f w, program.Runs options.prompt input (.fault f w) → good f) (k : Nat) :
    (Machine.start program.compile.code options input).SafeFor program.symbols good k := by
  refine Program.holds_of_runs hprogram hmax (stepwise_safeFor _ hlimit) fun o ho => ?_
  have hsound := Stmt.Runs.sound ho hprogram.wellTyped_code.1 (World.typed_start _ _)
  refine safeFor_of_outcome hsound ?_
  rintro f w rfl
  exact hrun f w ho

/-- **Checked programs do not go wrong.** In every state of a run, of whatever
length and with whatever limits, each name that has a value holds one that is
fit for its type, and if the run has failed, then not for want of an operand, by
the type of one or by a label that does not exist. -/
theorem Program.machine_sound {program : Program} {options : Options} {input : List UInt8}
    (hprogram : program.Checked) (hmax : options.maxStack < UInt64.size) (n : Nat) :
    (∀ x v, ((Machine.start program.compile.code options input).runFor n).1.store.find? x = some v →
      ∃ ty, program.compile.symbols.find? x = some ty ∧ v.Fits ty) ∧
    ∀ f, ((Machine.start program.compile.code options input).runFor n).2 = some (.failed f) →
      f.isInternal = false := by
  have hsafe : (Machine.start program.compile.code options input).SafeFor program.symbols
      (·.isInternal = false) n := by
    refine hprogram.safeFor hmax ?_ ?_ n
    · intro f hf
      cases f <;> simp_all [Fault.isLimit, Fault.isInternal]
    · intro f w hrun
      have hf := (Stmt.Runs.sound hrun hprogram.wellTyped_code.1 (World.typed_start _ _)).1
      cases f <;> simp_all [Fault.isDynamic, Fault.isInternal]
  have hsymbols : program.compile.symbols = program.symbols := by
    rw [Program.compile_eq]
    rfl
  rw [hsymbols]
  exact hsafe n (Nat.le_refl n)

/-- Stopped by a limit on steps, in the second round of its loop. -/
theorem Program.machine_sound_countdown :
    let stopped := (Machine.start countdown.compile.code { maxSteps := some 45 } [50, 10]).runFor 46
    countdown.Checked ∧ stopped.2 = some (.failed (.stepLimit 45)) ∧
      (Fault.stepLimit 45).isInternal = false ∧
      ∃ v ty, stopped.1.store.find? "s" = some v ∧
        countdown.compile.symbols.find? "s" = some ty ∧ v.Fits ty := by
  have hsound := @Program.machine_sound countdown { maxSteps := some 45 } [50, 10]
    countdown_checked (by decide) 46
  intro stopped
  have hrun : (Machine.start countdown.compile.code { maxSteps := some 45 } [50, 10]).runFor 46 =
    stopped := rfl
  have hfailed : stopped.2 = some (.failed (.stepLimit 45)) := by decide +kernel
  have hset : (stopped.1.store.find? "s").isSome := by decide +kernel
  -- the run was looked into twice; nothing below should evaluate it again
  clear_value stopped
  rw [hrun] at hsound
  obtain ⟨v, hv⟩ := Option.isSome_iff_exists.mp hset
  obtain ⟨ty, hty, hfits⟩ := hsound.1 "s" v hv
  exact ⟨countdown_checked, hfailed, hsound.2 _ hfailed, v, ty, hv, hty, hfits⟩

end Cairn
