import Cairn.Number.Integer

/-!
# Cairn — integers read back

Digits are written and read in base ten. What is written of a number is digits
and possibly a minus in front, and reading it gives the number.

## Main statements

* `digitsValue_digitsOf`      — the digits of a number spell the number.
* `readSigned?_signedText`    — signed numbers read back.
* `readUnsigned?_unsignedText` — unsigned numbers read back if they are in range.
-/

namespace Cairn

-- ---------------------------------------------------------------------------
-- Runs of digits
-- ---------------------------------------------------------------------------

theorem digitsValue_eq (cs : List Char) : digitsValue cs = Nat.ofDigitChars 10 cs 0 := by
  rw [digitsValue, Nat.ofDigitChars_eq_foldl]

theorem digitsValue_append (cs ds : List Char) :
    digitsValue (cs ++ ds) = digitsValue cs * Nat.pow 10 ds.length + digitsValue ds := by
  rw [digitsValue_eq, digitsValue_eq, digitsValue_eq, Nat.ofDigitChars_append,
    Nat.ofDigitChars_eq_ofDigitChars_zero, Nat.mul_comm]
  rfl

theorem digitsValue_zeros (k : Nat) : digitsValue (List.replicate k '0') = 0 := by
  rw [digitsValue_eq, Nat.ofDigitChars_replicate_zero, Nat.mul_zero]

theorem digitsValue_append_zeros (cs : List Char) (k : Nat) :
    digitsValue (cs ++ List.replicate k '0') = digitsValue cs * Nat.pow 10 k := by
  rw [digitsValue_append, digitsValue_zeros, List.length_replicate, Nat.add_zero]

theorem digitsValue_zeros_append (k : Nat) (cs : List Char) :
    digitsValue (List.replicate k '0' ++ cs) = digitsValue cs := by
  rw [digitsValue_append, digitsValue_zeros, Nat.zero_mul, Nat.zero_add]

theorem digitsValue_digitsOf (n : Nat) : digitsValue (digitsOf n) = n := by
  rw [digitsValue_eq, digitsOf, Nat.ofDigitChars_ten_toDigits]

theorem digitsOf_ne_nil (n : Nat) : digitsOf n ≠ [] :=
  Nat.toDigits_ne_nil

theorem isDigit_of_mem_digitsOf {n : Nat} {c : Char} (hc : c ∈ digitsOf n) : c.isDigit :=
  Nat.isDigit_of_mem_toDigits (by decide) (by decide) hc

theorem readDigits?_digitsOf (n : Nat) : readDigits? (digitsOf n) = some n := by
  have hnil : (digitsOf n).isEmpty = false := by simp [digitsOf_ne_nil n]
  have hall : (digitsOf n).all Char.isDigit = true :=
    List.all_eq_true.mpr fun c hc => isDigit_of_mem_digitsOf hc
  rw [readDigits?, hnil, hall, digitsValue_digitsOf]
  rfl

-- ---------------------------------------------------------------------------
-- Signs
-- ---------------------------------------------------------------------------

theorem isDigit_ne {c d : Char} (hc : c.isDigit) (hd : d.isDigit = false) : c ≠ d := by
  rintro rfl
  rw [hc] at hd
  cases hd

/-- What starts with a digit has no sign. -/
theorem readSign_of_isDigit {c : Char} {cs : List Char} (hc : c.isDigit) :
    readSign (c :: cs) = (false, c :: cs) := by
  have hminus : c ≠ '-' := isDigit_ne hc (by decide)
  have hplus : c ≠ '+' := isDigit_ne hc (by decide)
  simp [readSign, hminus, hplus]

theorem readSign_digitsOf (n : Nat) : readSign (digitsOf n) = (false, digitsOf n) := by
  cases hdigits : digitsOf n with
  | nil => exact absurd hdigits (digitsOf_ne_nil n)
  | cons c cs =>
    have hc : c ∈ digitsOf n := by rw [hdigits]; exact List.mem_cons_self
    exact readSign_of_isDigit (isDigit_of_mem_digitsOf hc)

theorem readUnsigned?_unsignedText {bound n : Nat} (h : n < bound) :
    readUnsigned? bound (unsignedText n).toList = some n := by
  rw [unsignedText, String.toList_ofList, readUnsigned?, readSign_digitsOf]
  simp [readDigits?_digitsOf, h]

theorem readSigned?_signedText (i : Int64) : readSigned? (signedText i).toList = some i := by
  have hlow : -(signedBound : Int) ≤ i.toInt := i.le_toInt
  have hhigh : i.toInt < signedBound := i.toInt_lt
  rw [signedText, String.toList_ofList, readSigned?]
  by_cases hneg : i.toInt < 0
  · have habs : i.toInt.natAbs ≤ signedBound := by omega
    have hback : -(i.toInt.natAbs : Int) = i.toInt := by omega
    rw [if_pos hneg]
    simp only [readSign, readDigits?_digitsOf, if_pos habs, if_true, hback, Int64.ofInt_toInt]
  · have habs : i.toInt.natAbs < signedBound := by omega
    have hback : Int64.ofNat i.toInt.natAbs = i := by
      rw [← Int64.ofInt_eq_ofNat, Int.natAbs_of_nonneg (by omega), Int64.ofInt_toInt]
    rw [if_neg hneg, readSign_digitsOf]
    simp only [readDigits?_digitsOf, if_pos habs, Bool.false_eq_true, if_false, hback]

end Cairn
