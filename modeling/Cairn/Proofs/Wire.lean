import Cairn.Bytecode.Wire

/-!
# Cairn — bytes read back

Nothing in the binary form says where a piece of code ends but the code itself.
So every reader has to take exactly the bytes that were written for a value,
whatever follows them, and has to notice when some of them are missing.
`Takes` says both at once, and goes through every level of the format: groups
of bits, numbers, texts, values, instructions, code.

## Main statements

* `Takes.bind`            — what two readers take stands one behind the other.
* `takes_instruction`     — an instruction is taken as it was written.
* `lossless_prefixFree`   — code is read back from its bytes, and from no part
  of them.
-/

namespace Cairn

/-- The text that an instruction carries. -/
def Instruction.text? : Instruction → Option String
  | .push (.str s) => some s
  | .load name => some name
  | .save name => some name
  | _ => none

/-- The number of instructions and the lengths of all texts have 64 bits, as
what is held in memory always has. -/
structure Code.Sized (code : Code) : Prop where
  length : code.length < UInt64.size
  texts : ∀ i ∈ code, ∀ s ∈ i.text?, (utf8Bytes s).length < UInt64.size

namespace Wire

-- ---------------------------------------------------------------------------
-- Exact readers
-- ---------------------------------------------------------------------------

/-- The reader takes the bytes as a value, whatever stands behind them, and
finds the bytes at their end if it is given a part of them only. -/
structure Takes {α : Type} (r : Reader α) (bytes : List UInt8) (a : α) : Prop where
  whole : ∀ tail, r.run (bytes ++ tail) = .ok (a, tail)
  part : ∀ p, p <+: bytes → p ≠ bytes → r.run p = .error .endOfBytes

/-- What is cut off short is cut off in the first text or in the second. -/
theorem prefix_append_cases {p as bs : List UInt8} (h : p <+: as ++ bs) (hne : p ≠ as ++ bs) :
    (p <+: as ∧ p ≠ as) ∨ ∃ q, p = as ++ q ∧ q <+: bs ∧ q ≠ bs := by
  by_cases has : as <+: p
  · obtain ⟨q, rfl⟩ := has
    refine .inr ⟨q, rfl, (List.prefix_append_right_inj as).mp h, ?_⟩
    rintro rfl
    exact hne rfl
  · rcases List.prefix_or_prefix_of_prefix h (List.prefix_append as bs) with hp | hp
    · exact .inl ⟨hp, fun heq => has (heq ▸ List.prefix_rfl)⟩
    · exact absurd hp has

namespace Takes

variable {α β : Type} {r : Reader α} {q : α → Reader β} {as bs : List UInt8} {a : α} {b : β}

theorem pure (a : α) : Takes (Pure.pure a) [] a where
  whole _ := rfl
  part _ hp hne := absurd (List.prefix_nil.mp hp) hne

theorem bind (hr : Takes r as a) (hq : Takes (q a) bs b) : Takes (r >>= q) (as ++ bs) b where
  whole tail := by
    rw [StateT.run_bind, List.append_assoc, hr.whole]
    exact hq.whole tail
  part p hp hne := by
    rw [StateT.run_bind]
    rcases prefix_append_cases hp hne with ⟨hpas, hneas⟩ | ⟨p', rfl, hpbs, hnebs⟩
    · rw [hr.part p hpas hneas]
      rfl
    · rw [hr.whole]
      exact hq.part p' hpbs hnebs

/-- The second reader takes no bytes of its own. -/
theorem andThen (hr : Takes r as a) (hq : Takes (q a) [] b) : Takes (r >>= q) as b := by
  have h := hr.bind hq
  rwa [List.append_nil] at h

theorem map (hr : Takes r as a) (f : α → β) : Takes (do return f (← r)) as (f a) :=
  hr.andThen (Takes.pure (f a))

end Takes

theorem takes_byte (b : UInt8) : Takes byte [b] b where
  whole _ := rfl
  part p hp hne := by
    rcases List.prefix_cons_iff.mp hp with rfl | ⟨t, rfl, ht⟩
    · rfl
    · exact absurd (congrArg (b :: ·) (List.prefix_nil.mp ht)) hne

theorem run_take (n : Nat) (bytes : List UInt8) :
    (take n).run bytes =
      if bytes.length < n then .error .endOfBytes else .ok (bytes.take n, bytes.drop n) := by
  by_cases h : bytes.length < n
  · rw [if_pos h, take, StateT.run_bind]
    show (if bytes.length < n then _ else _ : Reader _).run bytes = _
    rw [if_pos h]
    rfl
  · rw [if_neg h, take, StateT.run_bind]
    show (if bytes.length < n then _ else _ : Reader _).run bytes = _
    rw [if_neg h]
    rfl

theorem takes_take (bytes : List UInt8) : Takes (take bytes.length) bytes bytes where
  whole tail := by
    rw [run_take, if_neg (by simp), List.take_left, List.drop_left]
  part p hp hne := by
    have hlt : p.length < bytes.length :=
      Nat.lt_of_le_of_ne hp.length_le fun heq => hne (hp.eq_of_length heq)
    rw [run_take, if_pos hlt]

-- ---------------------------------------------------------------------------
-- Numbers
-- ---------------------------------------------------------------------------

/-- The first number that does not fit a group of at most `last` behind the
given number of full groups. -/
def room (last : Nat) : Nat → Nat
  | 0 => last + 1
  | groups + 1 => 128 * room last groups

theorem toNat_ofNat {n : Nat} (h : n < 256) : (UInt8.ofNat n).toNat = n := by
  rw [UInt8.toNat_ofNat']
  exact Nat.mod_eq_of_lt h

theorem takes_lastGroup {last groups n : Nat} (hsmall : n < 128)
    (hfits : ¬ (groups = 0 ∧ last < n)) :
    Takes (readGroups last (groups + 1)) [UInt8.ofNat n] n := by
  refine (takes_byte (UInt8.ofNat n)).andThen ?_
  rw [toNat_ofNat (by omega), if_pos hsmall, if_neg hfits]
  exact Takes.pure n

/-- A number is read in the groups in which it was written if the reader has
room for it. -/
theorem takes_groups {last : Nat} (hlast : last < 128) (groups more : Nat) {n : Nat}
    (hn : n < room last groups) :
    Takes (readGroups last (groups + 1)) (writeGroups (groups + more + 1) n) n := by
  induction groups generalizing n with
  | zero =>
    have hn : n < last + 1 := hn
    rw [writeGroups, if_pos (by omega)]
    exact takes_lastGroup (by omega) (by omega)
  | succ groups ih =>
    rw [writeGroups]
    by_cases hsmall : n < 128
    · rw [if_pos hsmall]
      exact takes_lastGroup hsmall (by omega)
    · have hrest : n / 128 < room last groups := Nat.div_lt_of_lt_mul hn
      have hvalue : (n % 128 + 128) % 128 + 128 * (n / 128) = n := by omega
      have htail := (ih hrest).map fun rest => (n % 128 + 128) % 128 + 128 * rest
      rw [hvalue] at htail
      rw [if_neg hsmall]
      refine (takes_byte _).bind ?_
      rw [toNat_ofNat (by omega), if_neg (by omega), Nat.add_right_comm]
      exact htail

theorem takes_nat32 {n : Nat} (h : n < UInt32.size) : Takes readNat32 (writeNat n) n :=
  takes_groups (by decide) 4 5 h

theorem takes_nat64 {n : Nat} (h : n < UInt64.size) : Takes readNat64 (writeNat n) n :=
  takes_groups (by decide) 9 0 h

/-- A choice is written as its position, and what it holds stands behind it. -/
theorem takes_choice {α : Type} {q : Nat → Reader α} {bytes : List UInt8} {a : α} (n : Nat)
    (hn : n < UInt32.size) (h : Takes (q n) bytes a) :
    Takes (readNat32 >>= q) (writeNat n ++ bytes) a :=
  (takes_nat32 hn).bind h

theorem takes_bare {α : Type} {q : Nat → Reader α} {a : α} (n : Nat) (hn : n < UInt32.size)
    (h : q n = pure a) : Takes (readNat32 >>= q) (writeNat n) a :=
  (takes_nat32 hn).andThen (h ▸ Takes.pure a)

theorem unzigzag_zigzag (i : Int) : unzigzag (zigzag i) = i := by
  unfold unzigzag zigzag
  split <;> split <;> omega

theorem zigzag_lt (i : Int64) : zigzag i.toInt < UInt64.size := by
  have hlow := i.le_toInt
  have hhigh := i.toInt_lt
  have hsize : UInt64.size = 18446744073709551616 := rfl
  unfold zigzag
  split <;> omega

theorem length_writeFixed (count n : Nat) : (writeFixed count n).length = count := by
  induction count generalizing n with
  | zero => rfl
  | succ count ih => rw [writeFixed, List.length_cons, ih]

/-- The number of so many bytes is what is left of it below their range. -/
theorem fixedValue_writeFixed (count n : Nat) :
    fixedValue (writeFixed count n) = n % Nat.pow 256 count := by
  induction count generalizing n with
  | zero => exact (Nat.mod_one n).symm
  | succ count ih =>
    have hbyte : (UInt8.ofNat (n % 256)).toNat = n % 256 :=
      toNat_ofNat (Nat.mod_lt _ (by decide))
    have hpow : Nat.pow 256 (count + 1) = 256 * Nat.pow 256 count := Nat.mul_comm _ _
    show (UInt8.ofNat (n % 256)).toNat + 256 * fixedValue (writeFixed count (n / 256)) = _
    rw [hbyte, ih, hpow, Nat.mod_mul]

-- ---------------------------------------------------------------------------
-- Texts, values and instructions
-- ---------------------------------------------------------------------------

theorem takes_text {s : String} (h : (utf8Bytes s).length < UInt64.size) :
    Takes readText (writeText s) s := by
  refine (takes_nat64 h).bind ((takes_take (utf8Bytes s)).andThen ?_)
  rw [ofUtf8?_utf8Bytes]
  exact Takes.pure s

theorem takes_tag (tag : Tag) : Takes readTag (writeTag tag) tag := by
  cases tag <;> exact takes_bare _ (by decide) rfl

theorem takes_bool (b : Bool) : Takes readBool [if b then 1 else 0] b := by
  cases b
  · exact (takes_byte 0).bind (Takes.pure false)
  · exact (takes_byte 1).bind (Takes.pure true)

theorem takes_fixed (x : Double) :
    Takes (do return Value.float ⟨UInt64.ofNat (fixedValue (← take 8))⟩)
      (writeFixed 8 x.bits.toNat) (.float x) := by
  have htake := takes_take (writeFixed 8 x.bits.toNat)
  rw [length_writeFixed] at htake
  have h := htake.map fun bytes => Value.float ⟨UInt64.ofNat (fixedValue bytes)⟩
  have hbits : x.bits.toNat % Nat.pow 256 8 = x.bits.toNat := Nat.mod_eq_of_lt x.bits.toNat_lt
  rwa [fixedValue_writeFixed, hbits, UInt64.ofNat_toNat] at h

theorem takes_value {v : Value} (h : ∀ s, v = .str s → (utf8Bytes s).length < UInt64.size) :
    Takes readValue (writeValue v) v := by
  cases v with
  | int i =>
    have hvalue := (takes_nat64 (zigzag_lt i)).map fun n => Value.int (Int64.ofInt (unzigzag n))
    rw [unzigzag_zigzag, Int64.ofInt_toInt] at hvalue
    exact (takes_tag .int).bind hvalue
  | float x => exact (takes_tag .float).bind (takes_fixed x)
  | bool b => exact (takes_tag .bool).bind ((takes_bool b).map Value.bool)
  | str s => exact (takes_tag .string).bind ((takes_text (h s rfl)).map Value.str)

theorem takes_label (id : UInt32) (f : UInt32 → Instruction) :
    Takes (do return f (UInt32.ofNat (← readNat32))) (writeNat id.toNat) (f id) := by
  have h := (takes_nat32 id.toNat_lt).map fun n => f (UInt32.ofNat n)
  rwa [UInt32.ofNat_toNat] at h

/-- **An instruction is taken as it was written.** -/
theorem takes_instruction {i : Instruction}
    (h : ∀ s ∈ i.text?, (utf8Bytes s).length < UInt64.size) :
    Takes readInstruction (writeInstruction i) i := by
  cases i with
  | push value =>
    have hvalue : Takes readValue (writeValue value) value :=
      takes_value fun s hs => h s (by rw [hs]; rfl)
    exact takes_choice 0 (by decide) (hvalue.map Instruction.push)
  | pop => exact takes_bare 1 (by decide) rfl
  | load name => exact takes_choice 2 (by decide) ((takes_text (h name rfl)).map Instruction.load)
  | save name => exact takes_choice 3 (by decide) ((takes_text (h name rfl)).map Instruction.save)
  | label id => exact takes_choice 4 (by decide) (takes_label id .label)
  | jmp id => exact takes_choice 5 (by decide) (takes_label id .jmp)
  | fjmp id => exact takes_choice 6 (by decide) (takes_label id .fjmp)
  | print count =>
    have hcount := (takes_nat64 count.toNat_lt).map fun n => Instruction.print (UInt64.ofNat n)
    rw [UInt64.ofNat_toNat] at hcount
    exact takes_choice 7 (by decide) hcount
  | read tag => exact takes_choice 8 (by decide) ((takes_tag tag).map Instruction.read)
  | unary op => cases op <;> exact takes_bare _ (by decide) rfl
  | binary op =>
    cases op with
    | add tag =>
      exact takes_choice 9 (by decide) ((takes_tag tag).map fun t => Instruction.binary (.add t))
    | sub tag =>
      exact takes_choice 10 (by decide) ((takes_tag tag).map fun t => Instruction.binary (.sub t))
    | mul tag =>
      exact takes_choice 11 (by decide) ((takes_tag tag).map fun t => Instruction.binary (.mul t))
    | div tag =>
      exact takes_choice 12 (by decide) ((takes_tag tag).map fun t => Instruction.binary (.div t))
    | _ => exact takes_bare _ (by decide) rfl

theorem takes_instructions {code : Code}
    (h : ∀ i ∈ code, ∀ s ∈ i.text?, (utf8Bytes s).length < UInt64.size) :
    Takes (readInstructions code.length) (code.flatMap writeInstruction) code := by
  induction code with
  | nil => exact Takes.pure []
  | cons i rest ih =>
    have hi := takes_instruction (h i List.mem_cons_self)
    have hrest := ih fun j hj => h j (List.mem_cons_of_mem _ hj)
    exact hi.bind (hrest.map (i :: ·))

-- ---------------------------------------------------------------------------
-- Code
-- ---------------------------------------------------------------------------

/-- The reader of code, before what follows the code is dropped. -/
def readWhole : Reader Code := do
  let count ← readNat64
  readInstructions count

theorem takes_code {code : Code} (h : code.Sized) : Takes readWhole (write code) code :=
  (takes_nat64 h.length).bind (takes_instructions h.texts)

theorem read_eq (bytes : List UInt8) : read bytes = (readWhole.run bytes).map Prod.fst := rfl

theorem read_write {code : Code} (h : code.Sized) : read (write code) = .ok code := by
  rw [read_eq, ← List.append_nil (write code), (takes_code h).whole]
  rfl

/-- **The binary form is lossless and prefix-free.** Code is read back from its
bytes whatever follows them, down to the bits of its floats. A proper part of
the bytes is always noticed to be one, so the bytes of one code never start
with those of another. -/
theorem lossless_prefixFree {code : Code} (h : code.Sized) :
    (∀ tail, read (write code ++ tail) = .ok code) ∧
    (∀ p, p <+: write code → p ≠ write code → read p = .error .endOfBytes) ∧
    ∀ other : Code, other.Sized → write code <+: write other → code = other := by
  have hcode : ∀ {c : Code}, c.Sized → ∀ tail, read (write c ++ tail) = .ok c := by
    intro c hc tail
    rw [read_eq, (takes_code hc).whole]
    rfl
  refine ⟨hcode h, fun p hp hne => ?_, fun other hother hprefix => ?_⟩
  · rw [read_eq, (takes_code h).part p hp hne]
    rfl
  · obtain ⟨tail, htail⟩ := hprefix
    have hread := hcode hother []
    rw [List.append_nil, ← htail, hcode h tail] at hread
    exact Except.ok.inj hread

/-- Numbers at the ends of their ranges, names that are not ASCII, and two floats
that are not numbers and differ in their bits. -/
def boundary : Code :=
  [.push (.int (-9223372036854775808)), .push (.int 63), .push (.int (-65)), .load "größe",
    .push (.str ""), .label 127, .jmp 128, .fjmp 4294967295, .print 18446744073709551615,
    .push (.float ⟨0x7ff8000000000000⟩), .push (.float ⟨0xfff8000000000001⟩), .read .string,
    .binary (.add .bool)]

theorem lossless_prefixFree_boundary :
    boundary.Sized ∧ read (write boundary ++ [0xff]) = .ok boundary ∧
      read ((write boundary).take 20) = .error .endOfBytes := by
  have hsized : boundary.Sized := ⟨by decide, by decide +kernel⟩
  obtain ⟨hwhole, hpart, -⟩ := lossless_prefixFree hsized
  exact ⟨hsized, hwhole [0xff], hpart _ (List.take_prefix 20 _) (by decide +kernel)⟩

end Wire

end Cairn
