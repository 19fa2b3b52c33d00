import Mathlib.Tactic.Linarith
import Mathlib.Tactic.Ring
import Cairn.Number.Shortest

/-!
# Cairn — rounding to the nearest number

`Double.nearest` depends on the fraction it rounds and not on how the fraction
is written, and it is the identity on the values of magnitudes. A decimal is
rounded as the fraction that it stands for: the exponents that `Decimal.nearest`
settles without computing a power round to infinity and to zero anyway.

## Main statements

* `Double.nearest_units`      — the value of a magnitude rounds to the magnitude.
* `Decimal.nearest_eq`        — a decimal rounds as the fraction it stands for.
* `Decimal.nearest_shift`     — zeros at the end can be traded for the exponent.
* `Double.nearest_shortest`   — the shortest digits round to the magnitude.
-/

namespace Cairn

namespace Double

-- ---------------------------------------------------------------------------
-- Fractions
-- ---------------------------------------------------------------------------

theorem unitsInOne_pos : 0 < unitsInOne := by
  unfold unitsInOne
  apply Nat.pow_pos
  decide

/-- The exponent stands behind a name: nothing here computes the power. -/
theorem unitsInOne_eq {k : Nat} (hk : k = 1074) : unitsInOne = 2 ^ k := by
  unfold unitsInOne
  rw [← hk]
  rfl

theorem roundDiv_mul_left {k : Nat} (hk : 0 < k) (n d : Nat) :
    roundDiv (k * n) (k * d) = roundDiv n d := by
  have hquot : k * n / (k * d) = n / d := Nat.mul_div_mul_left n d hk
  have hrem : k * n % (k * d) = k * (n % d) := Nat.mul_mod_mul_left k n d
  have hbelow : 2 * (k * (n % d)) < k * d ↔ 2 * (n % d) < d := by
    rw [Nat.mul_left_comm]
    exact Nat.mul_lt_mul_left hk
  have habove : k * d < 2 * (k * (n % d)) ↔ d < 2 * (n % d) := by
    rw [Nat.mul_left_comm 2 k]
    exact Nat.mul_lt_mul_left hk
  simp only [roundDiv, hquot, hrem, hbelow, habove]

theorem roundDiv_mul_self {d : Nat} (hd : 0 < d) (n : Nat) : roundDiv (n * d) d = n := by
  simp [roundDiv, Nat.mul_div_cancel n hd, hd]

theorem nearest_mul_left {k : Nat} (hk : 0 < k) (num den : Nat) :
    nearest (k * num) (k * den) = nearest num den := by
  have hquot : k * (num * unitsInOne) / (k * den) = num * unitsInOne / den :=
    Nat.mul_div_mul_left _ _ hk
  simp only [nearest, Nat.mul_assoc k, hquot, roundDiv_mul_left hk]

/-- Two fractions with the same value round to the same magnitude. -/
theorem nearest_congr {num den num' den' : Nat} (hden : 0 < den) (hden' : 0 < den')
    (h : num * den' = num' * den) : nearest num den = nearest num' den' := by
  calc nearest num den
      = nearest (den' * num) (den' * den) := (nearest_mul_left hden' num den).symm
    _ = nearest (den * num') (den * den') := by
        rw [Nat.mul_comm den' num, h, Nat.mul_comm num' den, Nat.mul_comm den' den]
    _ = nearest num' den' := nearest_mul_left hden num' den'

theorem nearest_zero {den : Nat} (hden : 0 < den) : nearest 0 den = 0 := by
  simp [nearest, roundDiv, hden]

-- ---------------------------------------------------------------------------
-- The ends of the range
-- ---------------------------------------------------------------------------

/-- Far above the greatest finite value. -/
theorem nearest_of_large {num den e : Nat} (hden : 0 < den) (he : 1200 ≤ e)
    (h : den * 2 ^ e ≤ num) : nearest num den = infinity := by
  obtain ⟨k, hk⟩ : ∃ k, k = 1074 := ⟨_, rfl⟩
  have hquot : 2 ^ (e + k) ≤ num * unitsInOne / den := by
    rw [Nat.le_div_iff_mul_le hden, unitsInOne_eq hk, Nat.pow_add, Nat.mul_comm, ← Nat.mul_assoc]
    exact Nat.mul_le_mul_right _ h
  have hlog : e + k ≤ (num * unitsInOne / den).log2 := by
    have hpos := Nat.two_pow_pos (e + k)
    exact (Nat.le_log2 (by omega)).mpr hquot
  have hbinade : infinity ≤ ((num * unitsInOne / den).log2 - 52) * binadeSize := by
    have hcount : 2047 ≤ (num * unitsInOne / den).log2 - 52 := by omega
    exact Nat.le_trans (by decide) (Nat.mul_le_mul_right binadeSize hcount)
  rw [nearest]
  exact Nat.min_eq_left (Nat.le_trans hbinade (Nat.le_add_right _ _))

/-- Far below the least value that is not zero. -/
theorem nearest_of_small {num den e : Nat} (hden : 0 < den) (he : 1200 ≤ e)
    (h : num * 2 ^ e ≤ den) : nearest num den = 0 := by
  rcases Nat.eq_zero_or_pos num with rfl | hnum
  · exact nearest_zero hden
  · obtain ⟨k, hk⟩ : ∃ k, k = 1074 := ⟨_, rfl⟩
    have hhalf : 2 * (num * unitsInOne) < den := by
      have hpow : 2 ^ (k + 1) < 2 ^ e := Nat.pow_lt_pow_right (by decide) (by omega)
      have hmul : num * 2 ^ (k + 1) < num * 2 ^ e := Nat.mul_lt_mul_of_pos_left hpow hnum
      rw [unitsInOne_eq hk]
      rw [Nat.pow_succ] at hmul
      linarith
    have hquot : num * unitsInOne / den = 0 := Nat.div_eq_of_lt (by omega)
    have hrem : num * unitsInOne % den = num * unitsInOne := Nat.mod_eq_of_lt (by omega)
    simp [nearest, roundDiv, hquot, hrem, hhalf]

-- ---------------------------------------------------------------------------
-- The values of magnitudes
-- ---------------------------------------------------------------------------

/-- A magnitude is a number of binades and a significand within the next. -/
theorem log2_units {m : Nat} : (units m).log2 - 52 = binade m := by
  have hdiv := Nat.div_add_mod m binadeSize
  have hmod : m % binadeSize < binadeSize := Nat.mod_lt m (by decide)
  have hsize : binadeSize = 2 ^ 52 := rfl
  by_cases hlow : m / binadeSize = 0
  · have hbinade : binade m = 0 := by rw [binade, hlow]
    have hm : m < 2 ^ 52 := by rw [hlow] at hdiv; omega
    have hunits : units m = m := by simp [units, hbinade]
    have hlog : m.log2 < 53 := by
      rcases Nat.eq_zero_or_pos m with rfl | hpos
      · decide
      · exact Nat.lt_succ_of_lt ((Nat.log2_lt (by omega)).mpr hm)
    rw [hunits, hbinade]
    omega
  · obtain ⟨b, hb⟩ := Nat.exists_eq_succ_of_ne_zero hlow
    have hbinade : binade m = b := by rw [binade, hb]; rfl
    have hsig : m - b * binadeSize = 2 ^ 52 + m % binadeSize := by
      rw [hb, Nat.mul_succ] at hdiv
      rw [Nat.mul_comm b]
      omega
    have hunits : units m = (2 ^ 52 + m % binadeSize) * 2 ^ b := by
      rw [units, hbinade, hsig]
      rfl
    have hpow := Nat.two_pow_pos b
    have hlog : (units m).log2 = 52 + b := by
      have hsig : 2 ^ 52 + m % binadeSize < 2 ^ 53 := by omega
      have hnext : 52 + b + 1 = 53 + b := by omega
      rw [Nat.log2_eq_iff (by rw [hunits]; positivity), hunits, hnext, Nat.pow_add, Nat.pow_add]
      exact ⟨Nat.mul_le_mul_right _ (Nat.le_add_right _ _), Nat.mul_lt_mul_of_pos_right hsig hpow⟩
    rw [hlog, hbinade]
    omega

theorem binade_le (m : Nat) : binade m * binadeSize ≤ m := by
  have := Nat.div_mul_le_self m binadeSize
  have hle : binade m ≤ m / binadeSize := Nat.sub_le _ _
  exact Nat.le_trans (Nat.mul_le_mul_right _ hle) this

/-- **Rounding is exact on values.** -/
theorem nearest_units {m : Nat} (hm : m ≤ infinity) : nearest (units m) unitsInOne = m := by
  have hquot : units m * unitsInOne / unitsInOne = units m :=
    Nat.mul_div_cancel _ unitsInOne_pos
  have hround : roundDiv (units m * unitsInOne) (unitsInOne * Nat.pow 2 (binade m)) =
      m - binade m * binadeSize := by
    have hpos : 0 < unitsInOne * Nat.pow 2 (binade m) :=
      Nat.mul_pos unitsInOne_pos (Nat.two_pow_pos _)
    rw [units, Nat.mul_assoc, Nat.mul_comm (Nat.pow 2 _)]
    exact roundDiv_mul_self hpos _
  have hle := binade_le m
  simp only [nearest, hquot, log2_units, hround]
  omega

end Double

-- ---------------------------------------------------------------------------
-- Decimals
-- ---------------------------------------------------------------------------

namespace Decimal

/-- A decimal as a fraction. -/
def num (d : Decimal) : Nat :=
  d.coefficient * Nat.pow 10 d.exponent.toNat

/-- A decimal as a fraction. -/
def den (d : Decimal) : Nat :=
  Nat.pow 10 (-d.exponent).toNat

theorem den_pos (d : Decimal) : 0 < d.den :=
  Nat.pow_pos (by decide)

theorem two_pow_le_ten_pow (n : Nat) : 2 ^ (3 * n) ≤ 10 ^ n := by
  rw [Nat.pow_mul]
  exact Nat.pow_le_pow_left (by decide) n

/-- The coefficient has no more digits than its binary length suggests. -/
theorem coefficient_lt (c : Nat) : c < 10 ^ (c.log2 / 3 + 1) := by
  have hlog : c.log2 + 1 ≤ 3 * (c.log2 / 3 + 1) := by omega
  calc c < 2 ^ (c.log2 + 1) := Nat.lt_log2_self
    _ ≤ 2 ^ (3 * (c.log2 / 3 + 1)) := Nat.pow_le_pow_right (by decide) hlog
    _ ≤ 10 ^ (c.log2 / 3 + 1) := two_pow_le_ten_pow _

/-- **A decimal is rounded as the fraction it stands for.** -/
theorem nearest_eq (d : Decimal) : d.nearest = Double.nearest d.num d.den := by
  obtain ⟨c, e⟩ := d
  rw [nearest]
  dsimp only
  split
  · next hzero => rw [num, hzero, Nat.zero_mul, Double.nearest_zero (den_pos _)]
  · next hc =>
    split
    · next hlarge =>
      have hden : (⟨c, e⟩ : Decimal).den = 1 := by
        have : (-e).toNat = 0 := by omega
        rw [den, this]
      have hnum : 1 * 2 ^ (3 * e.toNat) ≤ (⟨c, e⟩ : Decimal).num := by
        rw [num]
        exact Nat.mul_le_mul (Nat.pos_of_ne_zero hc) (two_pow_le_ten_pow _)
      rw [hden, Double.nearest_of_large Nat.one_pos (by omega) hnum]
    · split
      · next hsmall =>
        obtain ⟨n, hn⟩ : ∃ n, (-e).toNat = c.log2 / 3 + 1 + n :=
          ⟨(-e).toNat - (c.log2 / 3 + 1), by omega⟩
        have hnum : (⟨c, e⟩ : Decimal).num = c := by
          have : e.toNat = 0 := by omega
          rw [num, this]
          exact Nat.mul_one c
        have hden : c * 2 ^ (3 * n) ≤ (⟨c, e⟩ : Decimal).den := by
          rw [den, hn]
          show c * 2 ^ (3 * n) ≤ 10 ^ (c.log2 / 3 + 1 + n)
          rw [Nat.pow_add]
          exact Nat.mul_le_mul (Nat.le_of_lt (coefficient_lt c)) (two_pow_le_ten_pow n)
        rw [hnum, Double.nearest_of_small (den_pos _) (by omega) hden]
      · split
        · next hpos =>
          have : (-e).toNat = 0 := by omega
          rw [num, den, this]
        · next hneg =>
          have hzero : e.toNat = 0 := by omega
          have hexp : (-e).toNat = e.natAbs := by omega
          rw [num, den, hzero, hexp]
          show Double.nearest c _ = Double.nearest (c * 1) _
          rw [Nat.mul_one]

/-- Zeros at the end of the coefficient can be traded for the exponent. -/
theorem nearest_shift (c k : Nat) (e : Int) :
    (⟨c * Nat.pow 10 k, e⟩ : Decimal).nearest = (⟨c, e + k⟩ : Decimal).nearest := by
  rw [nearest_eq, nearest_eq]
  refine Double.nearest_congr (den_pos _) (den_pos _) ?_
  have hexp : k + e.toNat + (-(e + k)).toNat = (e + k).toNat + (-e).toNat := by omega
  show c * 10 ^ k * 10 ^ e.toNat * 10 ^ (-(e + k)).toNat =
    c * 10 ^ (e + k).toNat * 10 ^ (-e).toNat
  calc c * 10 ^ k * 10 ^ e.toNat * 10 ^ (-(e + k)).toNat
      = c * 10 ^ (k + e.toNat + (-(e + k)).toNat) := by rw [pow_add, pow_add]; ring
    _ = c * 10 ^ ((e + k).toNat + (-e).toNat) := by rw [hexp]
    _ = c * 10 ^ (e + k).toNat * 10 ^ (-e).toNat := by rw [pow_add]; ring

theorem nearest_coefficient_zero (e : Int) : (⟨0, e⟩ : Decimal).nearest = 0 := rfl

end Decimal

-- ---------------------------------------------------------------------------
-- The shortest digits
-- ---------------------------------------------------------------------------

namespace Double

/-- Of two neighbours only one that rounds to the magnitude is taken. -/
theorem nearest_of_neighbour {m : Nat} {low high d : Decimal} {highIsNear : Bool}
    (h : (if low.nearest = m then
        if high.nearest = m ∧ highIsNear then some high else some low
      else if high.nearest = m then some high
      else none) = some d) : d.nearest = m := by
  split at h
  · next hlow =>
    split at h
    · next hhigh => exact Option.some.inj h ▸ hhigh.1
    · exact Option.some.inj h ▸ hlow
  · split at h
    · next hhigh => exact Option.some.inj h ▸ hhigh
    · cases h

theorem nearest_of_shortestOf? {m places : Nat} {d : Decimal} (h : shortestOf? m places = some d) :
    d.nearest = m := by
  unfold shortestOf? at h
  generalize unitsInOne = den at h
  exact nearest_of_neighbour h

theorem nearest_exactDecimal {m : Nat} (hm : m ≤ infinity) : (exactDecimal m).nearest = m := by
  obtain ⟨k, hk⟩ : ∃ k, k = 1074 := ⟨_, rfl⟩
  have hexact : exactDecimal m = ⟨units m * Nat.pow 5 k, -(k : Int)⟩ := by
    unfold exactDecimal
    rw [← hk]
    congr 1
    omega
  have hnum : (⟨units m * Nat.pow 5 k, -(k : Int)⟩ : Decimal).num = units m * 5 ^ k := by
    have : (-(k : Int)).toNat = 0 := by omega
    rw [Decimal.num, this]
    exact Nat.mul_one _
  have hden : (⟨units m * Nat.pow 5 k, -(k : Int)⟩ : Decimal).den = 10 ^ k := by
    have : (- -(k : Int)).toNat = k := by omega
    rw [Decimal.den, this]
    rfl
  rw [hexact, Decimal.nearest_eq, hnum, hden]
  refine (nearest_congr (Nat.pow_pos (by decide)) unitsInOne_pos ?_).trans (nearest_units hm)
  rw [unitsInOne_eq hk, Nat.mul_assoc, ← Nat.mul_pow]

/-- **The shortest digits round to the magnitude they are digits of.** -/
theorem nearest_shortest {m : Nat} (hm : m ≤ infinity) : (shortest m).nearest = m := by
  rw [shortest]
  cases h : (List.range 17).findSome? fun n => shortestOf? m (n + 1) with
  | none => exact nearest_exactDecimal hm
  | some d =>
    obtain ⟨n, -, hn⟩ := List.exists_of_findSome?_eq_some h
    exact nearest_of_shortestOf? hn

end Double

end Cairn
