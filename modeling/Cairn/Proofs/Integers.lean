import Mathlib.Data.Rat.Floor
import Cairn.Proofs.Limits

/-!
# Cairn — integer arithmetic of the machine

The machine adds, subtracts, multiplies and negates integers modulo `2 ^ 64`: it gives the
one number of 64 bits that differs from the exact result by a multiple of `2 ^ 64`. The
quotient is cut off towards zero and then reduced in the same way, which matters for the
least number divided by `-1` only, and the remainder fits it. Because a residue is unique,
quotient and remainder give back what was divided, also where the quotient wraps around.

The statements are about machines that are in front of an instruction, with its operands on
top of the stack and anything below them.

## Main definitions

* `IsResidue`            — a number of 64 bits stands for an integer modulo `2 ^ 64`.
* `truncate`             — a fraction cut off towards zero.
* `Instruction.Computes` — what an instruction makes of operands on the stack.

## Main statements

* `Machine.computes_binary`, `computes_unary` — operators replace their operands.
* `Instruction.integers_wrap_exactly`         — integer arithmetic, all of it.
-/

namespace Cairn

-- ---------------------------------------------------------------------------
-- Residues
-- ---------------------------------------------------------------------------

/-- The number of 64 bits differs from the integer by a multiple of `2 ^ 64`. -/
def IsResidue (r : Int64) (x : Int) : Prop :=
  (UInt64.size : Int) ∣ x - r.toInt

theorem isResidue_of_bmod {r : Int64} {x : Int} (h : r.toInt = x.bmod UInt64.size) :
    IsResidue r x := by
  rw [IsResidue, h]
  exact Int.dvd_self_sub_bmod

theorem isResidue_self (r : Int64) : IsResidue r r.toInt := by
  simp [IsResidue]

/-- An integer has one residue: two numbers of 64 bits are less than `2 ^ 64` apart. -/
theorem IsResidue.unique {r s : Int64} {x : Int} (hr : IsResidue r x) (hs : IsResidue s x) :
    r = s := by
  have hsize : (UInt64.size : Int) = 18446744073709551616 := rfl
  obtain ⟨k, hk⟩ := hr
  obtain ⟨l, hl⟩ := hs
  rw [hsize] at hk hl
  have hr' := And.intro r.le_toInt r.toInt_lt
  have hs' := And.intro s.le_toInt s.toInt_lt
  exact Int64.toInt_inj.mp (by omega)

theorem isResidue_add (r s : Int64) : IsResidue (r + s) (r.toInt + s.toInt) :=
  isResidue_of_bmod (Int64.toInt_add r s)

theorem isResidue_mul (r s : Int64) : IsResidue (r * s) (r.toInt * s.toInt) :=
  isResidue_of_bmod (Int64.toInt_mul r s)

/-- Sums and products of residues are residues of sums and products. -/
theorem IsResidue.add {r s : Int64} {x y : Int} (hr : IsResidue r x) (hs : IsResidue s y) :
    IsResidue (r + s) (x + y) := by
  have hsplit : x + y - (r + s).toInt =
      (x - r.toInt) + (y - s.toInt) + (r.toInt + s.toInt - (r + s).toInt) := by ring
  rw [IsResidue, hsplit]
  exact dvd_add (dvd_add hr hs) (isResidue_add r s)

theorem IsResidue.mul {r s : Int64} {x y : Int} (hr : IsResidue r x) (hs : IsResidue s y) :
    IsResidue (r * s) (x * y) := by
  have hsplit : x * y - (r * s).toInt =
      (x - r.toInt) * y + r.toInt * (y - s.toInt) + (r.toInt * s.toInt - (r * s).toInt) := by ring
  rw [IsResidue, hsplit]
  exact dvd_add (dvd_add (hr.mul_right y) (hs.mul_left r.toInt)) (isResidue_mul r s)

-- ---------------------------------------------------------------------------
-- Quotients
-- ---------------------------------------------------------------------------

/-- The fraction cut off towards zero. -/
def truncate (x : ℚ) : ℤ :=
  if 0 ≤ x then ⌊x⌋ else ⌈x⌉

theorem truncate_neg (x : ℚ) : truncate (-x) = -truncate x := by
  rcases lt_trichotomy x 0 with hx | rfl | hx
  · rw [truncate, truncate, if_pos (by linarith), if_neg (by linarith), Int.floor_neg]
  · simp [truncate]
  · rw [truncate, truncate, if_neg (by linarith), if_pos (by linarith), Int.ceil_neg]

/-- The quotient cut off towards zero, by its sign and its magnitude. -/
theorem truncate_div (a b : ℤ) : truncate ((a : ℚ) / b) = a.tdiv b := by
  have hnat : ∀ m n : ℕ, truncate (((m : ℤ) : ℚ) / (n : ℤ)) = (m : ℤ).tdiv n := by
    intro m n
    have hnonneg : (0 : ℚ) ≤ ((m : ℤ) : ℚ) / (n : ℤ) := by positivity
    rw [truncate, if_pos hnonneg, Int.tdiv_eq_ediv_of_nonneg (Int.natCast_nonneg m)]
    exact Rat.floor_intCast_div_natCast m n
  obtain ⟨m, rfl | rfl⟩ := Int.eq_nat_or_neg a
  · obtain ⟨n, rfl | rfl⟩ := Int.eq_nat_or_neg b
    · exact hnat m n
    · rw [Int.cast_neg, div_neg, truncate_neg, hnat, Int.tdiv_neg]
  · obtain ⟨n, rfl | rfl⟩ := Int.eq_nat_or_neg b
    · rw [Int.cast_neg, neg_div, truncate_neg, hnat, Int.neg_tdiv]
    · rw [Int.cast_neg, Int.cast_neg, neg_div_neg_eq, hnat, Int.neg_tdiv, Int.tdiv_neg, neg_neg]

-- ---------------------------------------------------------------------------
-- Instructions in front of their operands
-- ---------------------------------------------------------------------------

namespace Machine

/-- The machine may execute the instruction next, and finds these operands on top of its
stack, the right one first. -/
structure Faces (i : Instruction) (operands below : List Value) (m : Machine) : Prop where
  next : m.code[m.ip]? = some i
  allowed : m.limitReached = none
  items : m.stack.items = operands ++ below
  depth_le : m.stack.depth ≤ m.stack.limit

/-- What a step comes to that takes its operands off the values `below`. A result takes
their place, and the machine goes on behind the instruction; a fault leaves it there. -/
def settled (m : Machine) (below : List Value) : Except Fault Value → Machine × StepResult
  | .ok v => ({ m with
      ip := m.ip + 1
      steps := m.steps + 1
      stack := { m.stack with items := v :: below } }, .executed)
  | .error f => ({ m with
      steps := m.steps + 1
      stack := { m.stack with items := below } }, .failed f)

end Machine

/-- Wherever the instruction finds the operands on the stack, it comes to this result. -/
def Instruction.Computes (i : Instruction) (operands : List Value)
    (result : Except Fault Value) : Prop :=
  ∀ (m : Machine) (below : List Value), m.Faces i operands below → m.step = m.settled below result

namespace Machine

/-- There is room for the result where there was some for the operands. -/
theorem Faces.step_eq {i : Instruction} {operand : Value} {operands below : List Value}
    {m : Machine} {result : Except Fault Value} (h : m.Faces i (operand :: operands) below)
    (hrun : execute (m.ip + 1) i { m with steps := m.steps + 1 } =
      pushResult (m.ip + 1) result { m with
        steps := m.steps + 1
        stack := { m.stack with items := below } }) :
    m.step = m.settled below result := by
  have hroom : ¬ m.stack.limit ≤ below.length := by
    have hdepth := h.depth_le
    rw [Stack.depth, h.items, List.length_append, List.length_cons] at hdepth
    omega
  cases result with
  | error f => exact step_of_error h.next h.allowed hrun
  | ok v =>
    have hpush : push v { m with
          steps := m.steps + 1
          stack := { m.stack with items := below } } =
        .ok () { m with
          steps := m.steps + 1
          stack := { m.stack with items := v :: below } } := by
      have hpush' : ({ m.stack with items := below } : Stack Value).push v =
          .ok { m.stack with items := v :: below } := if_neg hroom
      refine eq_ok_of_wp ?_
      rw [wp_push, hpush']
      exact ⟨rfl, rfl⟩
    rw [pushResult, bind_of_ok hpush] at hrun
    rw [step_of_ok h.next h.allowed hrun]
    rfl

theorem computes_unary (op : Instruction.Unary) (v : Value) :
    (Instruction.unary op).Computes [v] (op.apply v) := by
  intro m below h
  refine h.step_eq ?_
  obtain ⟨code, options, ip, steps, ⟨items, limit⟩, store, input, output⟩ := m
  obtain rfl : items = v :: below := h.items
  rfl

theorem computes_binary (op : Instruction.Binary) (left right : Value) :
    (Instruction.binary op).Computes [right, left] (op.apply left right) := by
  intro m below h
  refine h.step_eq ?_
  obtain ⟨code, options, ip, steps, ⟨items, limit⟩, store, input, output⟩ := m
  obtain rfl : items = right :: left :: below := h.items
  rfl

end Machine

/-- An instruction comes to one result: there are machines that face it. -/
theorem Instruction.Computes.unique {i : Instruction} {operands : List Value}
    {result result' : Except Fault Value} (h : i.Computes operands result)
    (h' : i.Computes operands result') : result = result' := by
  have hfaces : Machine.Faces i operands [] { Machine.start [i] {} [] with
      stack := ⟨operands, operands.length⟩ } :=
    ⟨rfl, rfl, (List.append_nil operands).symm, Nat.le_refl _⟩
  have hsettled := (h _ _ hfaces).symm.trans (h' _ _ hfaces)
  cases result with
  | ok v =>
    cases result' with
    | ok w =>
      cases hsettled
      rfl
    | error f => cases hsettled
  | error f =>
    cases result' with
    | ok w => cases hsettled
    | error g =>
      cases hsettled
      rfl

-- ---------------------------------------------------------------------------
-- Arithmetic
-- ---------------------------------------------------------------------------

namespace Instruction

open Machine (computes_unary computes_binary)

theorem computes_add (a b : Int64) :
    (binary (.add .int)).Computes [.int b, .int a] (.ok (.int (a + b))) :=
  computes_binary (.add .int) (.int a) (.int b)

theorem computes_mul (a b : Int64) :
    (binary (.mul .int)).Computes [.int b, .int a] (.ok (.int (a * b))) :=
  computes_binary (.mul .int) (.int a) (.int b)

theorem computes_div (a b : Int64) :
    (binary (.div .int)).Computes [.int b, .int a]
      (if b = 0 then .error .divisionByZero else .ok (.int (a / b))) := by
  have happly : (Binary.div .int).apply (.int a) (.int b) =
      if b = 0 then .error .divisionByZero else .ok (.int (a / b)) := by
    show (Arithmetic.div.onInts a b).map Value.int = _
    rw [Arithmetic.onInts]
    split <;> rfl
  rw [← happly]
  exact computes_binary (.div .int) (.int a) (.int b)

theorem computes_mod (a b : Int64) :
    (binary .mod).Computes [.int b, .int a]
      (if b = 0 then .error .divisionByZero else .ok (.int (a % b))) :=
  computes_binary .mod (.int a) (.int b)

/-- An instruction that has a value for every divisor but zero faults at zero only. -/
theorem faults_iff {i : Instruction} {a b v : Int64}
    (h : i.Computes [.int b, .int a]
      (if b = 0 then .error .divisionByZero else .ok (.int v))) :
    i.Computes [.int b, .int a] (.error .divisionByZero) ↔ b = 0 := by
  constructor
  · intro hfault
    by_contra hb
    rw [if_neg hb] at h
    cases h.unique hfault
  · intro hb
    rwa [if_pos hb] at h

/-- The remainder has the sign of what is divided and is smaller than the divisor. -/
theorem remainder_bounds (a : Int64) {b : Int64} (hb : b ≠ 0) :
    (a % b = 0 ∨ (a % b).toInt.sign = a.toInt.sign) ∧
      (a % b).toInt.natAbs < b.toInt.natAbs := by
  have hb' : b.toInt ≠ 0 := fun h => hb (Int64.toInt_inj.mp h)
  rw [Int64.toInt_mod]
  constructor
  · rw [Int.sign_tmod]
    by_cases hdvd : b.toInt ∣ a.toInt
    · left
      apply Int64.toInt_inj.mp
      rw [Int64.toInt_mod, Int.tmod_eq_zero_of_dvd hdvd]
      rfl
    · right
      rw [if_neg hdvd]
  · rw [Int.natAbs_tmod]
    exact Nat.mod_lt _ (Int.natAbs_pos.mpr hb')

/-- Quotient and remainder give back what was divided: both are residues of it. -/
theorem remainder_add_quotient_mul (a b : Int64) : a % b + a / b * b = a := by
  have hquotient : IsResidue (a / b) (a.toInt.tdiv b.toInt) :=
    isResidue_of_bmod (Int64.toInt_div a b)
  have hremainder : IsResidue (a % b) (a.toInt.tmod b.toInt) := by
    rw [← Int64.toInt_mod]
    exact isResidue_self _
  have hsum := hremainder.add (hquotient.mul (isResidue_self b))
  rw [Int.mul_comm, Int.tmod_add_mul_tdiv] at hsum
  exact hsum.unique (isResidue_self a)

/-- **Integer arithmetic is exact modulo `2 ^ 64`**, for all pairs of integers and on every
machine that has them on top of its stack.

1. Sum, difference, product and negation are the residues of the exact results.
2. Unless the divisor is zero, there are a quotient and a remainder. The remainder is zero
   or has the sign of what is divided, and its magnitude is below that of the divisor. The
   quotient is the residue of the exact quotient cut off towards zero. Adding the product of
   quotient and divisor to the remainder gives back what was divided.
3. Division and remainder fault just in case the divisor is zero. -/
theorem integers_wrap_exactly (a b : Int64) :
    (∃ s, (binary (.add .int)).Computes [.int b, .int a] (.ok (.int s)) ∧
      IsResidue s (a.toInt + b.toInt)) ∧
    (∃ d, (binary (.sub .int)).Computes [.int b, .int a] (.ok (.int d)) ∧
      IsResidue d (a.toInt - b.toInt)) ∧
    (∃ p, (binary (.mul .int)).Computes [.int b, .int a] (.ok (.int p)) ∧
      IsResidue p (a.toInt * b.toInt)) ∧
    (∃ n, (unary .uminus).Computes [.int a] (.ok (.int n)) ∧ IsResidue n (-a.toInt)) ∧
    (b ≠ 0 → ∃ q r, (binary (.div .int)).Computes [.int b, .int a] (.ok (.int q)) ∧
      (binary .mod).Computes [.int b, .int a] (.ok (.int r)) ∧
      (r = 0 ∨ r.toInt.sign = a.toInt.sign) ∧ r.toInt.natAbs < b.toInt.natAbs ∧
      IsResidue q (truncate ((a.toInt : ℚ) / b.toInt)) ∧
      ∃ p, (binary (.mul .int)).Computes [.int b, .int q] (.ok (.int p)) ∧
        (binary (.add .int)).Computes [.int p, .int r] (.ok (.int a))) ∧
    ((binary (.div .int)).Computes [.int b, .int a] (.error .divisionByZero) ↔ b = 0) ∧
    ((binary .mod).Computes [.int b, .int a] (.error .divisionByZero) ↔ b = 0) := by
  refine ⟨⟨a + b, computes_add a b, isResidue_add a b⟩,
    ⟨a - b, computes_binary (.sub .int) (.int a) (.int b), isResidue_of_bmod (Int64.toInt_sub a b)⟩,
    ⟨a * b, computes_mul a b, isResidue_mul a b⟩,
    ⟨-a, computes_unary .uminus (.int a), isResidue_of_bmod (Int64.toInt_neg a)⟩, fun hb => ?_,
    faults_iff (computes_div a b), faults_iff (computes_mod a b)⟩
  have hdiv := computes_div a b
  have hmod := computes_mod a b
  rw [if_neg hb] at hdiv hmod
  obtain ⟨hsign, hbound⟩ := remainder_bounds a hb
  have hquotient : IsResidue (a / b) (truncate ((a.toInt : ℚ) / b.toInt)) := by
    rw [truncate_div]
    exact isResidue_of_bmod (Int64.toInt_div a b)
  have hback := computes_add (a % b) (a / b * b)
  rw [remainder_add_quotient_mul] at hback
  exact ⟨a / b, a % b, hdiv, hmod, hsign, hbound, hquotient, a / b * b, computes_mul _ _, hback⟩

-- The only quotient that wraps around.
example : (Binary.div .int).apply (.int Int64.minValue) (.int (-1)) = .ok (.int Int64.minValue) ∧
    Binary.mod.apply (.int Int64.minValue) (.int (-1)) = .ok (.int 0) :=
  ⟨rfl, rfl⟩

end Instruction

end Cairn
