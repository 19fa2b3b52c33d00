import Cairn.Proofs.Digits
import Cairn.Proofs.Rounding

/-!
# Cairn — floating point numbers read back

Either text of a number that is one reads back as the same number, bit for bit.
The digits of the text are those of a decimal that rounds to the number, without
the zeros at its end; where the point stands, how a whole number ends and whether
there is an exponent changes how the decimal is split, but not what it is worth.

## Main statements

* `Decimal.read?_layout`  — a text reads as a decimal that rounds to the same magnitude.
* `Double.read?_layout`   — the text of a number reads back.
-/

namespace Cairn

-- ---------------------------------------------------------------------------
-- Reading digits, a point and an exponent
-- ---------------------------------------------------------------------------

namespace Decimal

variable {whole frac tail : List Char}

/-- What follows the digits does not go on with one. -/
def Ends (tail : List Char) : Prop :=
  tail = [] ∨ ∃ cs, tail = 'e' :: cs

theorem takeWhile_digits (hwhole : ∀ c ∈ whole, c.isDigit) {c : Char} (hc : c.isDigit = false) :
    (whole ++ c :: tail).takeWhile Char.isDigit = whole ∧
      (whole ++ c :: tail).dropWhile Char.isDigit = c :: tail := by
  rw [List.takeWhile_append_of_pos hwhole, List.dropWhile_append_of_pos hwhole]
  simp [hc]

theorem Ends.takeWhile_digits (htail : Ends tail) (hwhole : ∀ c ∈ whole, c.isDigit) :
    (whole ++ tail).takeWhile Char.isDigit = whole ∧
      (whole ++ tail).dropWhile Char.isDigit = tail := by
  rcases htail with rfl | ⟨cs, rfl⟩
  · rw [List.takeWhile_append_of_pos hwhole, List.dropWhile_append_of_pos hwhole]
    simp
  · exact Decimal.takeWhile_digits hwhole (by decide)

theorem read?_whole (hne : whole ≠ []) (hwhole : ∀ c ∈ whole, c.isDigit) (htail : Ends tail) :
    read? (whole ++ tail) = (readExponent? tail).map fun e => ⟨digitsValue whole, e⟩ := by
  obtain ⟨htake, hdrop⟩ := htail.takeWhile_digits hwhole
  rw [read?, htake, hdrop]
  rcases htail with rfl | ⟨cs, rfl⟩ <;> simp [hne]

theorem read?_point (hne : whole ≠ []) (hwhole : ∀ c ∈ whole, c.isDigit)
    (hfrac : ∀ c ∈ frac, c.isDigit) (htail : Ends tail) :
    read? (whole ++ '.' :: (frac ++ tail)) =
      (readExponent? tail).map fun e => ⟨digitsValue (whole ++ frac), e - frac.length⟩ := by
  obtain ⟨htake, hdrop⟩ := @takeWhile_digits whole (frac ++ tail) hwhole '.' (by decide)
  obtain ⟨htake', hdrop'⟩ := htail.takeWhile_digits hfrac
  rw [read?, htake, hdrop]
  simp [hne, htake', hdrop']

theorem read?_fraction (hne : whole ≠ []) (hwhole : ∀ c ∈ whole, c.isDigit)
    (hfrac : ∀ c ∈ frac, c.isDigit) :
    read? (whole ++ '.' :: frac) = some ⟨digitsValue (whole ++ frac), -frac.length⟩ := by
  have hread := read?_point hne hwhole hfrac (.inl rfl)
  rw [List.append_nil] at hread
  rw [hread]
  simp [readExponent?]

theorem readExponent?_digits (e : Int) :
    readExponent? ('e' :: if e < 0 then '-' :: digitsOf e.natAbs else digitsOf e.natAbs) =
      some e := by
  by_cases hneg : e < 0
  · have hback : -(e.natAbs : Int) = e := by omega
    rw [if_pos hneg]
    simp only [readExponent?, true_or, if_true, readSign, readDigits?_digitsOf]
    exact congrArg some hback
  · have hback : (e.natAbs : Int) = e := by omega
    rw [if_neg hneg]
    simp [readExponent?, readSign_digitsOf, readDigits?_digitsOf, hback]

end Decimal

-- ---------------------------------------------------------------------------
-- The two ways to set digits
-- ---------------------------------------------------------------------------

/-- Cutting zeros off the end of a text. -/
theorem exists_append_zeros (cs : List Char) :
    ∃ k, cs = (cs.reverse.dropWhile (· == '0')).reverse ++ List.replicate k '0' := by
  have hsplit := List.takeWhile_append_dropWhile (p := (· == '0')) (l := cs.reverse)
  have hzeros : cs.reverse.takeWhile (· == '0') =
      List.replicate (cs.reverse.takeWhile (· == '0')).length '0' := by
    rw [List.eq_replicate_iff]
    refine ⟨rfl, fun c hc => ?_⟩
    simpa using List.all_eq_true.mp List.all_takeWhile c hc
  refine ⟨(cs.reverse.takeWhile (· == '0')).length, ?_⟩
  rw [← List.reverse_replicate, ← hzeros, ← List.reverse_append, hsplit, List.reverse_reverse]

namespace Layout

variable {digits : List Char}

theorem read?_withExponent (hne : digits ≠ []) (hdigits : ∀ c ∈ digits, c.isDigit)
    (leading : Int) :
    Decimal.read? (withExponent digits leading) =
      some ⟨digitsValue digits, leading + 1 - digits.length⟩ := by
  obtain ⟨first, others, rfl⟩ := List.exists_cons_of_ne_nil hne
  have hfirst : ∀ c ∈ [first], c.isDigit := fun c hc =>
    hdigits c (List.mem_cons.mpr (.inl (List.mem_singleton.mp hc)))
  have hothers : ∀ c ∈ others, c.isDigit := fun c hc => hdigits c (List.mem_cons_of_mem _ hc)
  have hexp := Decimal.readExponent?_digits leading
  cases others with
  | nil =>
    have hread := Decimal.read?_whole (by simp) hfirst
      (.inr ⟨if leading < 0 then '-' :: digitsOf leading.natAbs else digitsOf leading.natAbs, rfl⟩)
    rw [hexp] at hread
    simp only [withExponent, List.take_succ_cons, List.take_zero, List.drop_succ_cons,
      List.drop_zero, List.isEmpty_nil, if_true, List.append_nil, List.length_singleton]
    rw [hread]
    simp
  | cons c cs =>
    have hread := Decimal.read?_point (by simp) hfirst hothers
      (.inr ⟨if leading < 0 then '-' :: digitsOf leading.natAbs else digitsOf leading.natAbs, rfl⟩)
    rw [hexp] at hread
    have htext : withExponent (first :: c :: cs) leading =
        [first] ++ '.' :: (c :: cs ++ 'e' ::
          if leading < 0 then '-' :: digitsOf leading.natAbs else digitsOf leading.natAbs) := by
      simp [withExponent]
    rw [htext, hread]
    simp only [Option.map_some, List.singleton_append, List.length_cons]
    congr 2
    push_cast
    ring

/-- A whole number ends with its digits, or with `.0`. -/
def Readable (l : Layout) : Prop :=
  l.whole = "" ∨ l.whole = ".0"

theorem readable_plain : plain.Readable := .inl rfl

theorem readable_exact : exact.Readable := .inr rfl

variable {l : Layout}

theorem isDigit_of_mem_zeros {k : Nat} {c : Char} (hc : c ∈ List.replicate k '0') : c.isDigit := by
  rw [List.eq_of_mem_replicate hc]
  decide

/-- Zeros behind the digits of a whole number. -/
theorem read?_whole (hl : l.Readable) (hne : digits ≠ []) (hdigits : ∀ c ∈ digits, c.isDigit)
    (k : Nat) :
    ∃ d, Decimal.read? (digits ++ List.replicate k '0' ++ l.whole.toList) = some d ∧
      d.nearest = (⟨digitsValue digits, k⟩ : Decimal).nearest := by
  have hall : ∀ c ∈ digits ++ List.replicate k '0', c.isDigit := fun c hc =>
    (List.mem_append.mp hc).elim (hdigits c) isDigit_of_mem_zeros
  have hfront : digits ++ List.replicate k '0' ≠ [] := by simp [hne]
  rcases hl with hl | hl
  · have hread := Decimal.read?_whole hfront hall (.inl rfl)
    rw [hl]
    refine ⟨_, hread, ?_⟩
    rw [digitsValue_append_zeros, Decimal.nearest_shift, Int.zero_add]
  · have hread := @Decimal.read?_fraction _ ['0'] hfront hall fun _ => isDigit_of_mem_zeros (k := 1)
    have hvalue : digitsValue (digits ++ List.replicate k '0' ++ ['0']) =
        digitsValue digits * Nat.pow 10 (k + 1) := by
      have hjoin : List.replicate k '0' ++ ['0'] = List.replicate (k + 1) '0' :=
        List.replicate_succ'.symm
      rw [List.append_assoc, hjoin, digitsValue_append_zeros]
    have hexp : -((['0'] : List Char).length : Int) + (k + 1 : Nat) = k := by
      rw [List.length_singleton]
      omega
    rw [hl]
    refine ⟨_, hread, ?_⟩
    rw [hvalue, Decimal.nearest_shift, hexp]

/-- In place of an exponent, zeros in front of the digits or behind them. -/
theorem read?_positional (hl : l.Readable) (hne : digits ≠ []) (hdigits : ∀ c ∈ digits, c.isDigit)
    (point : Int) :
    ∃ d, Decimal.read? (l.positional digits point) = some d ∧
      d.nearest = (⟨digitsValue digits, point - digits.length⟩ : Decimal).nearest := by
  rw [positional]
  by_cases hsmall : point ≤ 0
  · have hfrac : ∀ c ∈ List.replicate point.natAbs '0' ++ digits, c.isDigit := fun c hc =>
      (List.mem_append.mp hc).elim isDigit_of_mem_zeros (hdigits c)
    have hvalue : digitsValue (['0'] ++ (List.replicate point.natAbs '0' ++ digits)) =
        digitsValue digits :=
      (digitsValue_zeros_append 1 _).trans (digitsValue_zeros_append _ digits)
    have hexp : -((List.replicate point.natAbs '0' ++ digits).length : Int) =
        point - digits.length := by
      rw [List.length_append, List.length_replicate]
      omega
    have hread := @Decimal.read?_fraction ['0'] _ (by simp)
      (fun _ => isDigit_of_mem_zeros (k := 1)) hfrac
    rw [hvalue, hexp] at hread
    exact ⟨_, (if_pos hsmall) ▸ hread, rfl⟩
  · rw [if_neg hsmall]
    by_cases hwhole : digits.length ≤ point.toNat
    · have hexp : ((point.toNat - digits.length : Nat) : Int) = point - digits.length := by omega
      rw [if_pos hwhole, ← hexp]
      exact read?_whole hl hne hdigits _
    · have htake : digits.take point.toNat ≠ [] := by
        simp only [ne_eq, List.take_eq_nil_iff, hne, or_false]
        omega
      have hexp : -((digits.drop point.toNat).length : Int) = point - digits.length := by
        rw [List.length_drop]
        omega
      rw [if_neg hwhole]
      refine ⟨_, Decimal.read?_fraction htake (fun c hc => hdigits c (List.mem_of_mem_take hc))
        (fun c hc => hdigits c (List.mem_of_mem_drop hc)), ?_⟩
      rw [List.take_append_drop, hexp]

end Layout

/-- **The text of a decimal reads as one that rounds to the same magnitude.** -/
theorem Decimal.read?_layout {l : Layout} (hl : l.Readable) {d : Decimal}
    (hd : d.coefficient ≠ 0) :
    ∃ d', Decimal.read? (l.decimal d) = some d' ∧ d'.nearest = d.nearest := by
  obtain ⟨c, e⟩ := d
  obtain ⟨k, hk⟩ := exists_append_zeros (digitsOf c)
  obtain ⟨digits, hdigits⟩ :
      ∃ digits, ((digitsOf c).reverse.dropWhile (· == '0')).reverse = digits := ⟨_, rfl⟩
  rw [hdigits] at hk
  have hvalue : digitsValue digits * Nat.pow 10 k = c := by
    rw [← digitsValue_append_zeros, ← hk, digitsValue_digitsOf]
  have hne : digits ≠ [] := by
    rintro rfl
    exact hd (hvalue.symm.trans (Nat.zero_mul _))
  have hall : ∀ x ∈ digits, x.isDigit := fun x hx =>
    isDigit_of_mem_digitsOf (hk ▸ List.mem_append_left _ hx)
  have hlength : (digitsOf c).length = digits.length + k := by
    rw [hk, List.length_append, List.length_replicate]
  have hsame : (⟨c, e⟩ : Decimal).nearest = (⟨digitsValue digits, e + k⟩ : Decimal).nearest := by
    rw [← hvalue, Decimal.nearest_shift]
  rw [Layout.decimal, hsame]
  dsimp only
  rw [hdigits]
  split
  · refine ⟨_, Layout.read?_withExponent hne hall _, ?_⟩
    congr 2
    omega
  · obtain ⟨d', hread, hnear⟩ := Layout.read?_positional hl hne hall ((digitsOf c).length + e)
    refine ⟨d', hread, hnear.trans ?_⟩
    congr 2
    omega

-- ---------------------------------------------------------------------------
-- The characters of a number
-- ---------------------------------------------------------------------------

/-- The characters that decimals are written with. -/
def isDecimalChar (c : Char) : Bool :=
  c.isDigit || c == '.' || c == 'e' || c == 'E' || c == '+' || c == '-'

theorem isDecimalChar_of_isDigit {c : Char} (h : c.isDigit) : isDecimalChar c := by
  simp [isDecimalChar, h]

theorem isDigit_of_readDigits? {cs : List Char} {n : Nat} (h : readDigits? cs = some n) :
    ∀ c ∈ cs, c.isDigit := by
  rw [readDigits?] at h
  split at h
  · next hall =>
    rw [Bool.and_eq_true] at hall
    exact fun c hc => List.all_eq_true.mp hall.2 c hc
  · cases h

theorem readSign_cases (cs : List Char) :
    readSign cs = (false, cs) ∨
      ∃ c rest, cs = c :: rest ∧ (readSign cs).2 = rest ∧ (c = '-' ∨ c = '+') := by
  unfold readSign
  split
  · exact .inr ⟨_, _, rfl, rfl, .inl rfl⟩
  · exact .inr ⟨_, _, rfl, rfl, .inr rfl⟩
  · exact .inl rfl

theorem Decimal.isDecimalChar_of_readExponent? {cs : List Char} {e : Int}
    (h : Decimal.readExponent? cs = some e) : ∀ c ∈ cs, isDecimalChar c := by
  cases cs with
  | nil => exact fun c hc => absurd hc (by simp)
  | cons mark cs =>
    rw [Decimal.readExponent?] at h
    split at h
    · next hmark =>
      obtain ⟨e', he', -⟩ := Option.map_eq_some_iff.mp h
      obtain ⟨n, hn, -⟩ := Option.bind_eq_some_iff.mp he'
      have hdigits := isDigit_of_readDigits? hn
      have hcs : ∀ c ∈ cs, isDecimalChar c := by
        intro c hc
        rcases readSign_cases cs with hsign | ⟨sign, rest, rfl, hrest, hsign⟩
        · rw [hsign] at hdigits
          exact isDecimalChar_of_isDigit (hdigits c hc)
        · rcases List.mem_cons.mp hc with rfl | hc
          · rcases hsign with rfl | rfl <;> decide
          · rw [hrest] at hdigits
            exact isDecimalChar_of_isDigit (hdigits c hc)
      intro c hc
      rcases List.mem_cons.mp hc with rfl | hc
      · rcases hmark with rfl | rfl <;> decide
      · exact hcs c hc
    · cases h

/-- A text that is read as a decimal is digits with a point or without one, and
an exponent. -/
theorem Decimal.parts_of_read? {cs : List Char} {d : Decimal} (h : Decimal.read? cs = some d) :
    ∃ whole point frac tail e, cs = whole ++ (point ++ (frac ++ tail)) ∧
      (point = [] ∧ frac = [] ∨ point = ['.']) ∧ whole ++ frac ≠ [] ∧
      (∀ c ∈ whole ++ frac, c.isDigit) ∧ Decimal.readExponent? tail = some e := by
  have htake : ∀ {cs : List Char}, ∀ c ∈ cs.takeWhile Char.isDigit, c.isDigit := fun c hc =>
    List.all_eq_true.mp List.all_takeWhile c hc
  have hsplit := List.takeWhile_append_dropWhile (p := Char.isDigit) (l := cs)
  unfold Decimal.read? at h
  simp only at h
  split at h
  · next rest hrest =>
    split at h
    · cases h
    · next hne =>
      obtain ⟨e, he, -⟩ := Option.map_eq_some_iff.mp h
      refine ⟨cs.takeWhile Char.isDigit, ['.'], rest.takeWhile Char.isDigit,
        rest.dropWhile Char.isDigit, e, ?_, .inr rfl, by simpa using hne, ?_, he⟩
      · rw [List.takeWhile_append_dropWhile, List.singleton_append, ← hrest, hsplit]
      · exact fun c hc => (List.mem_append.mp hc).elim (htake c) (htake c)
  · split at h
    · cases h
    · next hne =>
      obtain ⟨e, he, -⟩ := Option.map_eq_some_iff.mp h
      refine ⟨cs.takeWhile Char.isDigit, [], [], cs.dropWhile Char.isDigit, e, hsplit.symm,
        .inl ⟨rfl, rfl⟩, by simpa using hne, ?_, he⟩
      rw [List.append_nil]
      exact htake

/-- A text that is read as a decimal starts with a digit or a point, and has no
other characters than decimals have. -/
theorem Decimal.chars_of_read? {cs : List Char} {d : Decimal} (h : Decimal.read? cs = some d) :
    (∃ c rest, cs = c :: rest ∧ (c.isDigit ∨ c = '.')) ∧ ∀ c ∈ cs, isDecimalChar c := by
  obtain ⟨whole, point, frac, tail, e, rfl, hpoint, hne, hdigits, htail⟩ := parts_of_read? h
  have hexponent := isDecimalChar_of_readExponent? htail
  refine ⟨?_, fun c hc => ?_⟩
  · cases whole with
    | cons c cs => exact ⟨c, _, rfl, .inl (hdigits c (by simp))⟩
    | nil =>
      rcases hpoint with ⟨-, rfl⟩ | rfl
      · exact absurd rfl hne
      · exact ⟨'.', _, rfl, .inr rfl⟩
  · simp only [List.mem_append] at hc
    rcases hc with hc | hc | hc | hc
    · exact isDecimalChar_of_isDigit (hdigits c (List.mem_append_left _ hc))
    · rcases hpoint with ⟨rfl, -⟩ | rfl
      · cases hc
      · rw [List.mem_singleton.mp hc]
        decide
    · exact isDecimalChar_of_isDigit (hdigits c (List.mem_append_right _ hc))
    · exact hexponent c hc

-- ---------------------------------------------------------------------------
-- Floating point numbers
-- ---------------------------------------------------------------------------

theorem toLower_of_isDigit {c : Char} (h : c.isDigit) : c.toLower = c := by
  have hnine : c.toNat ≤ 57 := (Char.isDigit_iff_toNat.mp h).2
  refine dif_neg fun hupper => ?_
  have hletter : 65 ≤ c.toNat := UInt32.le_iff_toNat_le.mp hupper.1
  omega

namespace Double

theorem ofParts_self (x : Double) : ofParts x.negative x.magnitude = x := by
  have hbits : x.bits.toNat < 2 * signBit := x.bits.toNat_lt
  have hparts : x.magnitude + (if x.negative then signBit else 0) = x.bits.toNat := by
    rw [magnitude, negative]
    by_cases hsign : signBit ≤ x.bits.toNat
    · have : x.bits.toNat % signBit = x.bits.toNat - signBit := by
        rw [Nat.mod_eq_sub_mod hsign, Nat.mod_eq_of_lt (by omega)]
      simp only [hsign, decide_true, if_true]
      omega
    · simp only [hsign, decide_false, Bool.false_eq_true, if_false]
      exact Nat.mod_eq_of_lt (by omega)
  rw [ofParts, hparts, UInt64.ofNat_toNat]

/-- The sign of a number is read off first. -/
theorem read?_signed {cs : List Char} (hcs : readSign cs = (false, cs)) (negative : Bool) :
    read? ((if negative then ['-'] else []) ++ cs) =
      (readWord? negative cs).or ((Decimal.read? cs).map fun d => ofParts negative d.nearest) := by
  have hsign : readSign ((if negative then ['-'] else []) ++ cs) = (negative, cs) := by
    cases negative with
    | true => rfl
    | false => exact hcs
  rw [read?, hsign]
  cases readWord? negative cs <;> rfl

/-- What starts like a decimal has no sign of its own and is no word. -/
theorem read?_of_decimal {cs : List Char} {d : Decimal} (h : Decimal.read? cs = some d)
    (negative : Bool) :
    read? ((if negative then ['-'] else []) ++ cs) = some (ofParts negative d.nearest) := by
  obtain ⟨c, rest, rfl, hc⟩ := (Decimal.chars_of_read? h).1
  have hlower : c.toLower = c := by
    rcases hc with hc | rfl
    · exact toLower_of_isDigit hc
    · decide
  have hne : ∀ a : Char, a.isDigit = false → a ≠ '.' → c ≠ a := by
    rintro a ha hpoint rfl
    rcases hc with hc | hc
    · exact isDigit_ne hc ha rfl
    · exact hpoint hc
  have hsign : readSign (c :: rest) = (false, c :: rest) := by
    have hminus := hne '-' (by decide) (by decide)
    have hplus := hne '+' (by decide) (by decide)
    simp [readSign, hminus, hplus]
  have hword : readWord? negative (c :: rest) = none := by
    have hi := hne 'i' (by decide) (by decide)
    have hn := hne 'n' (by decide) (by decide)
    simp [readWord?, hlower, hi, hn]
  rw [read?_signed hsign, hword, h]
  rfl

variable {l : Layout} {x : Double}

/-- Behind the sign, the text is a word or a decimal that rounds to the magnitude. -/
theorem layout_text (hl : l.Readable) (hx : x.isNaN = false) :
    ∃ body, (l.double x).toList = (if x.negative then ['-'] else []) ++ body ∧
      (x.magnitude = infinity ∧ body = "inf".toList ∨
        ∃ d, Decimal.read? body = some d ∧ d.nearest = x.magnitude) := by
  rw [Layout.double, hx, if_neg Bool.false_ne_true, String.toList_ofList]
  refine ⟨_, rfl, ?_⟩
  by_cases hinf : x.magnitude = infinity
  · rw [isInfinite, decide_eq_true hinf, if_pos rfl]
    exact .inl ⟨hinf, rfl⟩
  · refine .inr ?_
    rw [isInfinite, decide_eq_false hinf, if_neg Bool.false_ne_true]
    by_cases hzero : x.magnitude = 0
    · have hdigits : ∀ c ∈ ['0'], c.isDigit := List.forall_mem_singleton.mpr rfl
      obtain ⟨d, hread, hnear⟩ := Layout.read?_whole hl (by simp) hdigits 0
      rw [isZero, decide_eq_true hzero, if_pos rfl, hzero]
      exact ⟨d, hread, hnear.trans (Decimal.nearest_coefficient_zero _)⟩
    · have hmagnitude : x.magnitude ≤ infinity := by simpa [isNaN] using hx
      have hshort := nearest_shortest hmagnitude
      have hcoefficient : (shortest x.magnitude).coefficient ≠ 0 := by
        intro hc
        apply hzero
        rw [← hshort, Decimal.nearest, if_pos hc]
      obtain ⟨d, hread, hnear⟩ := Decimal.read?_layout hl hcoefficient
      rw [isZero, decide_eq_false hzero, if_neg Bool.false_ne_true]
      exact ⟨d, hread, hnear.trans hshort⟩

/-- **The text of a number reads back**, with its sign and to the last bit. -/
theorem read?_layout (hl : l.Readable) (hx : x.isNaN = false) :
    read? (l.double x).toList = some x := by
  have hback := ofParts_self x
  obtain ⟨body, htext, ⟨hinf, rfl⟩ | ⟨d, hread, hnear⟩⟩ := layout_text hl hx
  · have hword : readWord? x.negative "inf".toList = some (ofParts x.negative infinity) := by
      rw [readWord?]
      exact if_pos (.inl (by decide))
    rw [htext, read?_signed rfl, hword, Option.some_or, ← hinf, hback]
  · rw [htext, read?_of_decimal hread, hnear, hback]

/-- The text of a number has no blanks and no quotes. -/
theorem chars_layout (hl : l.Readable) (hx : x.isNaN = false) :
    ∀ c ∈ (l.double x).toList, isDecimalChar c ∨ c ∈ "inf".toList := by
  obtain ⟨body, htext, hbody⟩ := layout_text hl hx
  intro c hc
  rw [htext, List.mem_append] at hc
  rcases hc with hc | hc
  · have hminus : c = '-' := by
      split at hc
      · exact List.mem_singleton.mp hc
      · cases hc
    rw [hminus]
    exact .inl (by decide)
  · rcases hbody with ⟨-, rfl⟩ | ⟨d, hread, -⟩
    · exact .inr hc
    · exact .inl ((Decimal.chars_of_read? hread).2 c hc)

end Double

end Cairn
