import Cairn.Machine.Operators
import Cairn.Proofs.FloatText

/-!
# Cairn — whole numbers as floating point numbers

Converting integers never turns their order around, but it may join two of them.
Up to `2 ^ 53` it does not: there every whole number is the value of a floating
point number, which is written with the same digits. The next whole number,
`2 ^ 53 + 1`, is rounded.

## Main statements

* `Double.nearest_mono`      — the magnitudes of whole numbers are in their order.
* `Double.lt_ofInt`, `Double.eq_ofInt` — integers that stay apart compare as before.
* `Double.stayApart_of_small` — small integers stay apart.
* `Double.neg_ofInt`         — an integer other than zero can be negated before or after.
* `Layout.plain_ofInt`       — a small integer is written as its conversion is.
-/

namespace Cairn

namespace Double

-- ---------------------------------------------------------------------------
-- Magnitudes of whole numbers
-- ---------------------------------------------------------------------------

/-- The magnitude of a whole number below `2 ^ 53`, other than zero: its binade, and its
digits moved up to the highest place. -/
def ofWhole (n : Nat) : Nat :=
  (n.log2 + 1022) * binadeSize + n * 2 ^ (52 - n.log2)

section

variable {n : Nat} (hpos : 0 < n) (hlt : n < 2 ^ 53)

include hpos hlt

theorem log2_le_of_small : n.log2 ≤ 52 :=
  Nat.le_of_lt_succ ((Nat.log2_lt (by omega)).mpr hlt)

theorem significand_bounds :
    binadeSize ≤ n * 2 ^ (52 - n.log2) ∧ n * 2 ^ (52 - n.log2) < 2 * binadeSize := by
  have hlog := log2_le_of_small hpos hlt
  have hpow := Nat.two_pow_pos (52 - n.log2)
  have hlow : 2 ^ n.log2 * 2 ^ (52 - n.log2) ≤ n * 2 ^ (52 - n.log2) :=
    Nat.mul_le_mul_right _ (Nat.log2_self_le (by omega))
  have hhigh : n * 2 ^ (52 - n.log2) < 2 ^ (n.log2 + 1) * 2 ^ (52 - n.log2) :=
    Nat.mul_lt_mul_of_pos_right Nat.lt_log2_self hpow
  have hbelow : n.log2 + (52 - n.log2) = 52 := by omega
  have habove : n.log2 + 1 + (52 - n.log2) = 53 := by omega
  rw [← Nat.pow_add, hbelow] at hlow
  rw [← Nat.pow_add, habove] at hhigh
  exact ⟨hlow, hhigh⟩

theorem binade_ofWhole : binade (ofWhole n) = n.log2 + 1022 := by
  obtain ⟨hlow, hhigh⟩ := significand_bounds hpos hlt
  have hsize : 0 < binadeSize := by decide
  have hone : n * 2 ^ (52 - n.log2) / binadeSize = 1 :=
    Nat.div_eq_of_lt_le (by omega) (by omega)
  rw [binade, ofWhole, Nat.mul_comm, Nat.mul_add_div hsize, hone]
  rfl

theorem units_ofWhole : units (ofWhole n) = n * unitsInOne := by
  obtain ⟨k, hk⟩ : ∃ k, k = 1074 := ⟨_, rfl⟩
  have hlog := log2_le_of_small hpos hlt
  have hexp : 52 - n.log2 + (n.log2 + 1022) = k := by omega
  have hsig : ofWhole n - (n.log2 + 1022) * binadeSize = n * 2 ^ (52 - n.log2) := by
    rw [ofWhole]
    omega
  rw [units, binade_ofWhole hpos hlt, hsig, unitsInOne_eq hk, ← hexp, Nat.pow_add, Nat.mul_assoc]
  rfl

theorem ofWhole_lt : ofWhole n < 1076 * binadeSize := by
  obtain ⟨-, hhigh⟩ := significand_bounds hpos hlt
  have hlog := log2_le_of_small hpos hlt
  have hmul : (n.log2 + 1022) * binadeSize ≤ 1074 * binadeSize :=
    Nat.mul_le_mul_right _ (by omega)
  rw [ofWhole]
  omega

/-- **The magnitude of a whole number.** -/
theorem nearest_whole : nearest n 1 = ofWhole n := by
  have hinfinity : 1076 * binadeSize ≤ infinity := by decide
  have hbelow := ofWhole_lt hpos hlt
  calc nearest n 1
      = nearest (units (ofWhole n)) unitsInOne := by
        refine nearest_congr Nat.one_pos unitsInOne_pos ?_
        rw [units_ofWhole hpos hlt, Nat.mul_one]
    _ = ofWhole n := nearest_units (by omega)

theorem ofWhole_pos : 0 < ofWhole n := by
  obtain ⟨hlow, -⟩ := significand_bounds hpos hlt
  have hsize : 0 < binadeSize := by decide
  rw [ofWhole]
  omega

theorem ofWhole_strictMono {m : Nat} (hmpos : 0 < m) (hmn : m < n) : ofWhole m < ofWhole n := by
  obtain ⟨hlow, -⟩ := significand_bounds hpos hlt
  obtain ⟨-, hhigh⟩ := significand_bounds hmpos (Nat.lt_trans hmn hlt)
  have hlog : m.log2 ≤ n.log2 := by
    rw [Nat.le_log2 (by omega)]
    exact Nat.le_trans (Nat.log2_self_le (by omega)) (Nat.le_of_lt hmn)
  rw [ofWhole, ofWhole]
  rcases Nat.eq_or_lt_of_le hlog with heq | hless
  · have hmul := Nat.mul_lt_mul_of_pos_right hmn (Nat.two_pow_pos (52 - n.log2))
    rw [heq]
    omega
  · have hmul : (m.log2 + 1 + 1022) * binadeSize ≤ (n.log2 + 1022) * binadeSize :=
      Nat.mul_le_mul_right _ (by omega)
    have hnext : (m.log2 + 1 + 1022) * binadeSize = (m.log2 + 1022) * binadeSize + binadeSize := by
      rw [Nat.add_right_comm, Nat.succ_mul]
    omega

end

-- ---------------------------------------------------------------------------
-- Rounding keeps the order
-- ---------------------------------------------------------------------------

theorem le_roundDiv (n d : Nat) : n / d ≤ roundDiv n d := by
  unfold roundDiv
  dsimp only
  split
  · exact Nat.le_refl _
  · split <;> omega

theorem roundDiv_le (n d : Nat) : roundDiv n d ≤ n / d + 1 := by
  unfold roundDiv
  dsimp only
  split
  · omega
  · split <;> omega

theorem roundDiv_mono {m n : Nat} (h : m ≤ n) (d : Nat) : roundDiv m d ≤ roundDiv n d := by
  rcases Nat.lt_or_eq_of_le (Nat.div_le_div_right h : m / d ≤ n / d) with hlt | heq
  · have hlow := roundDiv_le m d
    have hhigh := le_roundDiv n d
    omega
  · have hrem : m % d ≤ n % d := by
      have hm := Nat.div_add_mod m d
      have hn := Nat.div_add_mod n d
      rw [heq] at hm
      omega
    unfold roundDiv
    dsimp only
    rw [heq]
    repeat' split
    all_goals omega

/-- Before the range ends, a number of units has a magnitude in its own binade or at
the beginning of the next. -/
theorem scaled_mono {s t : Nat} (h : s ≤ t) :
    (s.log2 - 52) * binadeSize + roundDiv s (1 * Nat.pow 2 (s.log2 - 52)) ≤
      (t.log2 - 52) * binadeSize + roundDiv t (1 * Nat.pow 2 (t.log2 - 52)) := by
  have hlog : s.log2 ≤ t.log2 := by
    rcases Nat.eq_zero_or_pos s with rfl | hpos
    · exact Nat.zero_le _
    · rw [Nat.le_log2 (by omega)]
      exact Nat.le_trans (Nat.log2_self_le (by omega)) h
  obtain ⟨b, hb⟩ : ∃ b, s.log2 - 52 = b := ⟨_, rfl⟩
  obtain ⟨c, hc⟩ : ∃ c, t.log2 - 52 = c := ⟨_, rfl⟩
  rw [hb, hc, Nat.one_mul, Nat.one_mul, Nat.pow_eq, Nat.pow_eq]
  -- Within one binade the quotients decide; from a lower one rounding goes up at most
  -- to where the next begins.
  rcases Nat.lt_or_eq_of_le (by omega : b ≤ c) with hlt | rfl
  · have hbelow : s / 2 ^ b < 2 ^ 53 := by
      refine Nat.div_lt_of_lt_mul (Nat.lt_of_lt_of_le Nat.lt_log2_self ?_)
      rw [← Nat.pow_add]
      exact Nat.pow_le_pow_right (by decide) (by omega)
    have habove : 2 ^ 52 ≤ t / 2 ^ c := by
      refine (Nat.le_div_iff_mul_le (Nat.two_pow_pos c)).mpr ?_
      have hsum : 52 + c = t.log2 := by omega
      rw [← Nat.pow_add, hsum]
      refine Nat.log2_self_le ?_
      rintro rfl
      rw [Nat.log2_zero] at hsum
      omega
    have hsize : binadeSize = 2 ^ 52 := rfl
    have hlow := roundDiv_le s (2 ^ b)
    have hhigh := le_roundDiv t (2 ^ c)
    have hmul : (b + 1) * binadeSize ≤ c * binadeSize := Nat.mul_le_mul_right _ hlt
    rw [Nat.succ_mul] at hmul
    omega
  · exact Nat.add_le_add_left (roundDiv_mono h _) _

/-- **Converting keeps the order** of whole numbers, though it may join two of them. -/
theorem nearest_mono {m n : Nat} (h : m ≤ n) : nearest m 1 ≤ nearest n 1 := by
  have hscaled := scaled_mono (Nat.mul_le_mul_right unitsInOne h)
  unfold nearest
  dsimp only
  rw [Nat.div_one, Nat.div_one]
  exact Nat.le_min.mpr ⟨Nat.min_le_left _ _, Nat.le_trans (Nat.min_le_right _ _) hscaled⟩

theorem nearest_bound : nearest (2 ^ 53) 1 = 1076 * binadeSize := by
  decide +kernel

theorem nearest_whole_lt {m n : Nat} (hmn : m < n) (hn : n ≤ 2 ^ 53) :
    nearest m 1 < nearest n 1 := by
  have hsize : 0 < binadeSize := by decide
  rcases Nat.eq_or_lt_of_le hn with rfl | hlt
  · rw [nearest_bound]
    rcases Nat.eq_zero_or_pos m with rfl | hm
    · rw [nearest_zero Nat.one_pos]
      omega
    · rw [nearest_whole hm hmn]
      exact ofWhole_lt hm hmn
  · have hn : 0 < n := by omega
    rw [nearest_whole hn hlt]
    rcases Nat.eq_zero_or_pos m with rfl | hm
    · rw [nearest_zero Nat.one_pos]
      exact ofWhole_pos hn hlt
    · rw [nearest_whole hm (by omega)]
      exact ofWhole_strictMono hn hlt hm hmn

/-- A whole number below `2 ^ 53` is told from all others. -/
theorem nearest_whole_inj {m n : Nat} (hn : n < 2 ^ 53) (h : nearest m 1 = nearest n 1) :
    m = n := by
  rcases Nat.lt_trichotomy m n with hlt | heq | hgt
  · have hless := nearest_whole_lt hlt (Nat.le_of_lt hn)
    omega
  · exact heq
  · rcases Nat.le_total m (2 ^ 53) with hm | hm
    · have hless := nearest_whole_lt hgt hm
      omega
    · have hlarge := nearest_mono hm
      have hsmall := nearest_whole_lt hn (Nat.le_refl _)
      omega

-- ---------------------------------------------------------------------------
-- Sign and order
-- ---------------------------------------------------------------------------

theorem nearest_lt_signBit (num den : Nat) : nearest num den < signBit :=
  Nat.lt_of_le_of_lt (Nat.min_le_left _ _) (by decide)

theorem toNat_ofParts {magnitude : Nat} (h : magnitude < signBit) (negative : Bool) :
    (ofParts negative magnitude).bits.toNat = magnitude + if negative then signBit else 0 := by
  have hbit : signBit = 2 ^ 63 := rfl
  rw [ofParts, UInt64.toNat_ofNat']
  exact Nat.mod_eq_of_lt (by split <;> omega)

theorem negative_ofParts {magnitude : Nat} (h : magnitude < signBit) (negative : Bool) :
    (ofParts negative magnitude).negative = negative := by
  rw [Double.negative, toNat_ofParts h]
  cases negative with
  | false => exact decide_eq_false (Nat.not_le_of_lt h)
  | true => exact decide_eq_true (Nat.le_add_left _ _)

theorem magnitude_ofParts {magnitude : Nat} (h : magnitude < signBit) (negative : Bool) :
    (ofParts negative magnitude).magnitude = magnitude := by
  rw [Double.magnitude, toNat_ofParts h]
  cases negative with
  | false => exact Nat.mod_eq_of_lt h
  | true => exact (Nat.add_mod_right _ _).trans (Nat.mod_eq_of_lt h)

theorem negative_ofInt (i : Int) : (ofInt i).negative = decide (i < 0) :=
  negative_ofParts (nearest_lt_signBit _ _) _

theorem magnitude_ofInt (i : Int) : (ofInt i).magnitude = nearest i.natAbs 1 :=
  magnitude_ofParts (nearest_lt_signBit _ _) _

theorem isNaN_ofInt (i : Int) : (ofInt i).isNaN = false := by
  rw [isNaN, magnitude_ofInt]
  exact decide_eq_false (Nat.not_lt_of_le (Nat.min_le_left _ _))

/-- Negating before or after the conversion is the same, except for zero. -/
theorem neg_ofInt {i : Int} (h : i ≠ 0) : (ofInt i).neg = ofInt (-i) := by
  have hsign : (!decide (i < 0)) = decide (-i < 0) := by
    rw [← decide_not]
    exact decide_eq_decide.mpr (by omega)
  rw [neg, negative_ofInt, magnitude_ofInt, hsign, ofInt, Int.natAbs_neg]

theorem rank_ofInt (i : Int) :
    (ofInt i).rank = if i < 0 then -(nearest i.natAbs 1 : Int) else nearest i.natAbs 1 := by
  rw [rank, negative_ofInt, magnitude_ofInt]
  simp only [decide_eq_true_eq]

variable {a b : Int}

/-- The integers stay apart behind their conversion, if they are not the same. -/
def StayApart (a b : Int) : Prop :=
  a = b ∨ (ofInt a).rank ≠ (ofInt b).rank

theorem StayApart.symm (h : StayApart a b) : StayApart b a :=
  h.imp Eq.symm Ne.symm

theorem eq_ofInt_iff : (ofInt a).eq (ofInt b) ↔ (ofInt a).rank = (ofInt b).rank := by
  rw [eq, isNaN_ofInt, isNaN_ofInt, Bool.not_false, Bool.true_and, Bool.true_and]
  exact beq_iff_eq

theorem rank_ofInt_mono (h : a ≤ b) : (ofInt a).rank ≤ (ofInt b).rank := by
  rw [rank_ofInt, rank_ofInt]
  by_cases hbneg : b < 0
  · have hle := nearest_mono (m := b.natAbs) (n := a.natAbs) (by omega)
    rw [if_pos (by omega), if_pos hbneg]
    omega
  · rw [if_neg hbneg]
    by_cases haneg : a < 0
    · rw [if_pos haneg]
      omega
    · have hle := nearest_mono (m := a.natAbs) (n := b.natAbs) (by omega)
      rw [if_neg haneg]
      omega

theorem lt_ofInt (h : StayApart a b) : (ofInt a).lt (ofInt b) = decide (a < b) := by
  have hiff : (ofInt a).rank < (ofInt b).rank ↔ a < b := by
    rcases h with rfl | hne
    · omega
    · refine ⟨fun hless => ?_, fun hless => ?_⟩
      · by_contra hge
        have hle := rank_ofInt_mono (Int.not_lt.mp hge)
        omega
      · have hle := rank_ofInt_mono (Int.le_of_lt hless)
        omega
  rw [lt, isNaN_ofInt, isNaN_ofInt, Bool.not_false, Bool.true_and, Bool.true_and]
  exact decide_eq_decide.mpr hiff

theorem eq_ofInt (h : StayApart a b) : (ofInt a).eq (ofInt b) = decide (a = b) := by
  have hiff : (ofInt a).rank = (ofInt b).rank ↔ a = b :=
    ⟨fun hsame => h.resolve_right fun hne => hne hsame, fun heq => heq ▸ rfl⟩
  exact Bool.eq_iff_iff.mpr (eq_ofInt_iff.trans (hiff.trans decide_eq_true_iff.symm))

theorem rank_ofInt_lt (ha : a.natAbs ≤ 2 ^ 53) (hb : b.natAbs ≤ 2 ^ 53) (h : a < b) :
    (ofInt a).rank < (ofInt b).rank := by
  rw [rank_ofInt, rank_ofInt]
  by_cases hbneg : b < 0
  · have hless := nearest_whole_lt (m := b.natAbs) (n := a.natAbs) (by omega) ha
    rw [if_pos (by omega), if_pos hbneg]
    omega
  · rw [if_neg hbneg]
    by_cases haneg : a < 0
    · have hless := nearest_whole_lt (m := 0) (n := a.natAbs) (by omega) ha
      rw [if_pos haneg]
      omega
    · have hless := nearest_whole_lt (m := a.natAbs) (n := b.natAbs) (by omega) hb
      rw [if_neg haneg]
      omega

/-- **Converting keeps small integers apart.** -/
theorem stayApart_of_small (ha : a.natAbs ≤ 2 ^ 53) (hb : b.natAbs ≤ 2 ^ 53) :
    StayApart a b := by
  rcases Int.lt_trichotomy a b with hlt | heq | hgt
  · have hless := rank_ofInt_lt ha hb hlt
    exact .inr (by omega)
  · exact .inl heq
  · have hless := rank_ofInt_lt hb ha hgt
    exact .inr (by omega)

end Double

-- ---------------------------------------------------------------------------
-- Digits
-- ---------------------------------------------------------------------------

theorem Decimal.scaleDown_zero (num den : Nat) : Decimal.scaleDown num den 0 = num / den :=
  congrArg (num / ·) (Nat.mul_one den)

/-- The first success in a range is not behind a known one. -/
theorem findSome?_range_of_isSome {α : Type} {f : Nat → Option α} {k e : Nat} (he : e < k)
    (h : (f e).isSome) : ∃ i ≤ e, ∃ a, f i = some a ∧ (List.range k).findSome? f = some a := by
  have hsplit :
      List.range k = List.range (e + 1) ++ (List.range (k - (e + 1))).map (e + 1 + ·) := by
    rw [← List.range_add, Nat.add_sub_cancel' he]
  have hsome : ((List.range (e + 1)).findSome? f).isSome :=
    List.findSome?_isSome_iff.mpr ⟨e, List.mem_range.mpr (Nat.lt_succ_self e), h⟩
  obtain ⟨a, ha⟩ := Option.isSome_iff_exists.mp hsome
  obtain ⟨i, hi, hfi⟩ := List.exists_of_findSome?_eq_some ha
  refine ⟨i, Nat.le_of_lt_succ (List.mem_range.mp hi), a, hfi, ?_⟩
  rw [hsplit, List.findSome?_append, ha, Option.some_or]

namespace Double

section

variable {n : Nat} (hpos : 0 < n) (hlt : n < 2 ^ 53)

include hpos hlt

/-- The first digit stands for a power of ten that is in the number. -/
theorem leadingExponent_whole :
    ∃ e : Nat, Decimal.leadingExponent (n * unitsInOne) unitsInOne = e ∧ 10 ^ e ≤ n := by
  obtain ⟨k, hk⟩ : ∃ k, k = 1074 := ⟨_, rfl⟩
  obtain ⟨g, hg⟩ : ∃ g, g = n.log2 * 1233 / 4096 := ⟨_, rfl⟩
  have hguess : 10 ^ g ≤ n := by
    have htable : ∀ l ≤ 52, 10 ^ (l * 1233 / 4096) ≤ 2 ^ l := by decide
    rw [hg]
    exact Nat.le_trans (htable _ (log2_le_of_small hpos hlt)) (Nat.log2_self_le (by omega))
  have hone : unitsInOne.log2 = k := by
    rw [unitsInOne_eq hk, Nat.log2_two_pow]
  have hnum : (n * unitsInOne).log2 = n.log2 + k := by
    have hscaled : n * 2 ^ k ≠ 0 := Nat.mul_ne_zero (by omega) (Nat.two_pow_pos k).ne'
    rw [unitsInOne_eq hk, Nat.log2_eq_iff hscaled, Nat.add_right_comm, Nat.pow_add, Nat.pow_add]
    exact ⟨Nat.mul_le_mul_right _ (Nat.log2_self_le (by omega)),
      Nat.mul_lt_mul_of_pos_right Nat.lt_log2_self (Nat.two_pow_pos k)⟩
  have hdiff : (((n * unitsInOne).log2 : Int) - unitsInOne.log2) * 1233 / 4096 = g := by
    rw [hnum, hone]
    omega
  have hle : ∀ e : Nat, Decimal.le ⟨1, e⟩ (n * unitsInOne) unitsInOne ↔ 10 ^ e ≤ n := by
    intro e
    rw [Decimal.le, if_pos (Int.natCast_nonneg e), decide_eq_true_iff, Nat.one_mul]
    exact Nat.mul_le_mul_right_iff unitsInOne_pos
  have hstep : (g : Int) + 1 = (g + 1 : Nat) := rfl
  rw [Decimal.leadingExponent, hdiff, hstep]
  by_cases hnext : 10 ^ (g + 1) ≤ n
  · exact ⟨g + 1, if_pos ((hle _).mpr hnext), hnext⟩
  · refine ⟨g, ?_, hguess⟩
    rw [if_neg (mt (hle _).mp hnext), if_pos ((hle g).mpr hguess)]

/-- All digits of a whole number read back as the number. -/
theorem shortestOf?_whole {e : Nat}
    (he : Decimal.leadingExponent (n * unitsInOne) unitsInOne = e) :
    (shortestOf? (nearest n 1) (e + 1)).isSome := by
  have hexp : (e : Int) + 1 - ((e + 1 : Nat) : Int) = 0 := by omega
  have hbelow : Decimal.scaleDown (n * unitsInOne) unitsInOne 0 = n := by
    rw [Decimal.scaleDown_zero, Nat.mul_div_cancel n unitsInOne_pos]
  have hlow : (⟨n, 0⟩ : Decimal).nearest = nearest n 1 := by
    rw [Decimal.nearest_eq]
    exact congrArg (nearest · 1) (Nat.mul_one n)
  rw [nearest_whole hpos hlt, shortestOf?, units_ofWhole hpos hlt, he, hexp, hbelow, hlow,
    nearest_whole hpos hlt, if_pos rfl]
  split <;> rfl

end

theorem exponent_of_shortestOf? {m places : Nat} {d : Decimal} (h : shortestOf? m places = some d) :
    d.exponent = Decimal.leadingExponent (units m) unitsInOne + 1 - places := by
  unfold shortestOf? at h
  generalize unitsInOne = den at h ⊢
  dsimp only at h
  split at h
  · split at h <;> exact Option.some.inj h ▸ rfl
  · split at h
    · exact Option.some.inj h ▸ rfl
    · cases h

/-- **The shortest digits of a small whole number are its own**, less the zeros at its end. -/
theorem shortest_whole {n : Nat} (hpos : 0 < n) (hlt : n < 2 ^ 53) :
    ∃ c x : Nat, shortest (nearest n 1) = ⟨c, x⟩ ∧ c * 10 ^ x = n := by
  obtain ⟨e, he, hpow⟩ := leadingExponent_whole hpos hlt
  have hplaces : e < 17 := by
    by_contra hmany
    have hlarge : 10 ^ 17 ≤ 10 ^ e := Nat.pow_le_pow_right (by decide) (by omega)
    omega
  obtain ⟨i, hi, ⟨c, exponent⟩, hd, hfirst⟩ :=
    findSome?_range_of_isSome (f := fun i => shortestOf? (nearest n 1) (i + 1)) hplaces
      (shortestOf?_whole hpos hlt he)
  have hexp : exponent = ((e - i : Nat) : Int) := by
    have hexponent := exponent_of_shortestOf? hd
    rw [nearest_whole hpos hlt, units_ofWhole hpos hlt, he] at hexponent
    dsimp only at hexponent
    omega
  subst hexp
  refine ⟨c, e - i, ?_, nearest_whole_inj hlt ?_⟩
  · rw [shortest, hfirst, Option.getD_some]
  · have hnear := nearest_of_shortestOf? hd
    rw [Decimal.nearest_eq, Decimal.num, Decimal.den] at hnear
    have hden : (-((e - i : Nat) : Int)).toNat = 0 := by omega
    rw [hden] at hnear
    exact hnear

end Double

theorem digitsOf_mul_pow {c : Nat} (hc : 0 < c) (x : Nat) :
    digitsOf (c * 10 ^ x) = digitsOf c ++ List.replicate x '0' := by
  induction x with
  | zero => rw [Nat.pow_zero, Nat.mul_one, List.replicate_zero, List.append_nil]
  | succ x ih =>
    have hpow : c * 10 ^ (x + 1) = 10 * (c * 10 ^ x) := by
      rw [Nat.pow_succ, ← Nat.mul_assoc, Nat.mul_comm]
    have hten : 10 ≤ 10 * (c * 10 ^ x) :=
      Nat.le_mul_of_pos_right 10 (Nat.mul_pos hc (Nat.pow_pos (by decide)))
    have hlast : 10 * (c * 10 ^ x) % 10 = 0 := Nat.mul_mod_right 10 _
    have hrest : 10 * (c * 10 ^ x) / 10 = c * 10 ^ x := Nat.mul_div_cancel_left _ (by decide)
    rw [digitsOf] at ih
    rw [hpow, digitsOf, Nat.toDigits_of_base_le (by decide) hten, hlast, hrest, ih,
      List.append_assoc, List.replicate_succ']
    rfl

/-- The digits of a whole number are filled up with zeros. -/
theorem Layout.plain_decimal {c : Nat} (hc : 0 < c) (x : Nat) :
    plain.decimal ⟨c, x⟩ = digitsOf (c * 10 ^ x) := by
  obtain ⟨k, hk⟩ := exists_append_zeros (digitsOf c)
  obtain ⟨digits, hdigits⟩ :
      ∃ digits, ((digitsOf c).reverse.dropWhile (· == '0')).reverse = digits := ⟨_, rfl⟩
  have hlength : (digitsOf c).length = digits.length + k := by
    rw [hk, hdigits, List.length_append, List.length_replicate]
  have hsome : 0 < (digitsOf c).length := List.length_pos_iff.mpr (digitsOf_ne_nil c)
  have hzeros : ((digitsOf c).length + (x : Int)).toNat - digits.length = k + x := by omega
  have hplain : plain.scientific ((digitsOf c).length + (x : Int) - 1) = false := rfl
  rw [Layout.decimal]
  dsimp only
  rw [if_neg (Bool.eq_false_iff.mp hplain), hdigits, positional, if_neg (by omega),
    if_pos (by omega), hzeros, digitsOf_mul_pow hc, hk, hdigits, List.append_assoc,
    List.append_assoc, List.replicate_append_replicate]
  exact congrArg _ (List.append_nil _)

theorem Layout.plain_whole {n : Nat} (hpos : 0 < n) (h : n ≤ 2 ^ 53) :
    plain.decimal (Double.shortest (Double.nearest n 1)) = digitsOf n := by
  rcases Nat.eq_or_lt_of_le h with rfl | hlt
  · decide +kernel
  · obtain ⟨c, x, hshort, hvalue⟩ := Double.shortest_whole hpos hlt
    have hc : 0 < c := Nat.pos_of_mul_pos_right (hvalue ▸ hpos)
    rw [hshort, plain_decimal hc, hvalue]

/-- **A small integer is written as its conversion is.** -/
theorem Layout.plain_ofInt {i : Int} (h : i.natAbs ≤ 2 ^ 53) :
    plain.double (Double.ofInt i) =
      String.ofList (if i < 0 then '-' :: digitsOf i.natAbs else digitsOf i.natAbs) := by
  have hfinite : (Double.ofInt i).isInfinite = false := by
    have hbound : Double.nearest i.natAbs 1 ≤ 1076 * Double.binadeSize := by
      rw [← Double.nearest_bound]
      exact Double.nearest_mono h
    have hinfinity : 1076 * Double.binadeSize < Double.infinity := by decide
    rw [Double.isInfinite, Double.magnitude_ofInt]
    exact decide_eq_false (by omega)
  have hsign : (if (Double.ofInt i).negative then ['-'] else []) ++ digitsOf i.natAbs =
      if i < 0 then '-' :: digitsOf i.natAbs else digitsOf i.natAbs := by
    rw [Double.negative_ofInt]
    by_cases hneg : i < 0
    · rw [if_pos hneg, if_pos (decide_eq_true hneg)]
      rfl
    · rw [if_neg hneg, if_neg (by simpa using hneg)]
      rfl
  rw [double, Double.isNaN_ofInt, hfinite, Double.isZero, Double.magnitude_ofInt, ← hsign]
  rcases Nat.eq_zero_or_pos i.natAbs with hzero | hpos
  · rw [hzero, Double.nearest_zero Nat.one_pos]
    rfl
  · have hsome := Double.nearest_whole_lt hpos h
    rw [Double.nearest_zero Nat.one_pos] at hsome
    simp only [Nat.pos_iff_ne_zero.mp hsome, plain_whole hpos h, decide_false, if_false,
      Bool.false_eq_true]

end Cairn
