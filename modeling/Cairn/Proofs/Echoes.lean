import Cairn.Proofs.Failures
import Cairn.Proofs.Listing

/-!
# Cairn — what was printed can be read

What is printed of one value is a line, and where that line comes next in the input it
is read as the same value. On the way from the one to the other the line is cut out of
the bytes at its line feed, the characters that end it are taken off, and for all but
texts also the white space around it. None of that touches the value: no character but
the line feed has a byte like it, numbers and truth values are written without white
space, and a text is required to be one line.

## Main definitions

* `Value.FitsLine` — the values that a line can spell.

## Main statements

* `takeLine_text`      — a line of text is cut out of the bytes as it was written.
* `Value.ofLine?_text` — a value is read from its text.
* `Machine.printed_reads_back` — a machine reads what a machine has printed.
-/

namespace Cairn

-- ---------------------------------------------------------------------------
-- Lines of bytes
-- ---------------------------------------------------------------------------

theorem utf8Bytes_append (s t : String) : utf8Bytes (s ++ t) = utf8Bytes s ++ utf8Bytes t := by
  simp [utf8Bytes, String.toByteArray_append]

theorem utf8Bytes_eq_flatMap (s : String) :
    utf8Bytes s = s.toList.flatMap String.utf8EncodeChar := by
  rw [utf8Bytes, ← String.utf8Encode_toList]
  simp [List.utf8Encode]

theorem mem_utf8Bytes {s : String} {b : UInt8} :
    b ∈ utf8Bytes s ↔ ∃ c ∈ s.toList, b ∈ String.utf8EncodeChar c := by
  rw [utf8Bytes_eq_flatMap, List.mem_flatMap]

theorem utf8Bytes_lineFeed : utf8Bytes "\n" = [10] := by decide

/-- A character of ASCII is one byte. -/
theorem encode_ascii {c : Char} (hc : c.toNat < 128) :
    String.utf8EncodeChar c = [c.val.toUInt8] := by
  refine String.utf8EncodeChar_eq_singleton (Char.utf8Size_eq_one_iff.mpr ?_)
  exact UInt32.le_iff_toNat_le.mpr (Nat.le_of_lt_succ hc)

theorem toNat_asciiByte {c : Char} (hc : c.toNat < 128) : c.val.toUInt8.toNat = c.toNat := by
  rw [UInt32.toNat_toUInt8]
  exact Nat.mod_eq_of_lt (Nat.lt_trans hc (by decide))

/-- All bytes of another character are beyond ASCII. -/
theorem le_of_mem_encode {c : Char} (hc : 128 ≤ c.toNat) {b : UInt8}
    (hb : b ∈ String.utf8EncodeChar c) : 128 ≤ b.toNat := by
  have hlarge : ∀ n, 128 ≤ n → n < 256 → b = UInt8.ofNat n → 128 ≤ b.toNat := by
    intro n hlow hhigh heq
    rw [heq, UInt8.toNat_ofNat_of_lt' hhigh]
    exact hlow
  have hval : c.toNat = c.val.toNat := rfl
  delta String.utf8EncodeChar at hb
  dsimp only at hb
  split at hb
  · omega
  · split at hb
    · simp only [List.mem_cons, List.not_mem_nil, or_false] at hb
      rcases hb with hb | hb <;> exact hlarge _ (by omega) (by omega) hb
    · split at hb
      · simp only [List.mem_cons, List.not_mem_nil, or_false] at hb
        rcases hb with hb | hb | hb <;> exact hlarge _ (by omega) (by omega) hb
      · simp only [List.mem_cons, List.not_mem_nil, or_false] at hb
        rcases hb with hb | hb | hb | hb <;> exact hlarge _ (by omega) (by omega) hb

theorem eq_of_lineFeed_mem {c : Char} (h : 10 ∈ String.utf8EncodeChar c) : c = '\n' := by
  rcases Nat.lt_or_ge c.toNat 128 with hc | hc
  · rw [encode_ascii hc] at h
    have hnat := congrArg UInt8.toNat (List.mem_singleton.mp h)
    exact Char.toNat_inj.mp ((toNat_asciiByte hc).symm.trans hnat.symm)
  · exact absurd (le_of_mem_encode hc h) (by decide)

theorem lineFeed_not_mem {s : String} (h : '\n' ∉ s.toList) : 10 ∉ utf8Bytes s := by
  intro hmem
  obtain ⟨c, hc, hbyte⟩ := mem_utf8Bytes.mp hmem
  rw [eq_of_lineFeed_mem hbyte] at hc
  exact h hc

theorem takeLine_ended {body : List UInt8} (h : 10 ∉ body) (rest : List UInt8) :
    takeLine (body ++ 10 :: rest) = (body ++ [10], rest) := by
  induction body with
  | nil => rfl
  | cons b body ih =>
    obtain ⟨hb, hbody⟩ := not_or.mp (mt List.mem_cons.mpr h)
    rw [List.cons_append, takeLine, if_neg (Ne.symm hb), ih hbody]
    rfl

/-- **A line of text is cut out of the bytes as it was written.** -/
theorem takeLine_text {s : String} (h : '\n' ∉ s.toList) (rest : List UInt8) :
    takeLine (utf8Bytes (s ++ "\n") ++ rest) = (utf8Bytes (s ++ "\n"), rest) := by
  rw [utf8Bytes_append, utf8Bytes_lineFeed, List.append_assoc]
  exact takeLine_ended (lineFeed_not_mem h) rest

-- ---------------------------------------------------------------------------
-- The ends of a line
-- ---------------------------------------------------------------------------

theorem trimEndWhile_eq_self {p : Char → Bool} {cs : List Char}
    (h : ∀ c ∈ cs.getLast?, p c = false) :
    trimEndWhile p cs = cs := by
  have hdrop : cs.reverse.dropWhile p = cs.reverse := by
    rw [List.getLast?_eq_head?_reverse] at h
    cases hrev : cs.reverse with
    | nil => rfl
    | cons c rest =>
      rw [hrev] at h
      exact List.dropWhile_cons_of_neg (by simp [h c rfl])
  rw [trimEndWhile, hdrop, List.reverse_reverse]

theorem trimEndWhile_concat {p : Char → Bool} {c : Char} (hc : p c) (cs : List Char) :
    trimEndWhile p (cs ++ [c]) = trimEndWhile p cs := by
  rw [trimEndWhile, List.reverse_concat, List.dropWhile_cons_of_pos hc]
  rfl

/-- Only the line feed is taken off a line that ends otherwise in front of it. -/
theorem chomp_line {s : String} (hfeed : '\n' ∉ s.toList)
    (hreturn : s.toList.getLast? ≠ some '\r') :
    chomp (s ++ "\n").toList = s.toList := by
  have hline : (s ++ "\n").toList = s.toList ++ ['\n'] := String.toList_append
  rw [hline, chomp, trimEndWhile_concat rfl]
  refine trimEndWhile_eq_self fun c hc => ?_
  have hlast : s.toList.getLast? = some c := hc
  have hne : c ≠ '\n' := by
    rintro rfl
    exact hfeed (List.mem_of_getLast? hlast)
  have hne' : c ≠ '\r' := by
    rintro rfl
    exact hreturn hlast
  simp [hne, hne']

theorem trim_eq_self {cs : List Char} (h : ∀ c ∈ cs, isWhite c = false) : trim cs = cs := by
  have hfront : cs.dropWhile isWhite = cs := by
    cases cs with
    | nil => rfl
    | cons c rest => exact List.dropWhile_cons_of_neg (by simp [h c List.mem_cons_self])
  rw [trim, hfront]
  exact trimEndWhile_eq_self fun c hc => h c (List.mem_of_getLast? hc)

-- ---------------------------------------------------------------------------
-- Values
-- ---------------------------------------------------------------------------

namespace Value

/-- The value is a number, a truth value, or a text that is one line: without a line feed
in it, and without a carriage return at its end, which would end the line. -/
def FitsLine : Value → Prop
  | .int _ | .bool _ => True
  | .float x => x.isNaN = false
  | .str s => '\n' ∉ s.toList ∧ s.toList.getLast? ≠ some '\r'

variable {v : Value}

/-- What is not a text is printed as one word. -/
theorem FitsLine.plain_or_text (h : v.FitsLine) : Plain v.text.toList ∨ ∃ s, v = .str s := by
  cases v with
  | int i => exact .inl (Listing.plain_signedText i)
  | float x => exact .inl (Listing.plain_layout Layout.readable_plain h)
  | bool b => exact .inl (Listing.plain_boolText b)
  | str s => exact .inr ⟨s, rfl⟩

theorem FitsLine.text (h : v.FitsLine) :
    '\n' ∉ v.text.toList ∧ v.text.toList.getLast? ≠ some '\r' := by
  rcases h.plain_or_text with hplain | ⟨s, rfl⟩
  · have hline := hplain.oneLine
    exact ⟨fun hmem => (hline _ hmem).1 rfl,
      fun hlast => (hline _ (List.mem_of_getLast? hlast)).2 rfl⟩
  · exact h

/-- **A value is read from its text**, under its tag. -/
theorem ofLine?_text (h : v.FitsLine) : ofLine? v.tag v.text.toList = some v := by
  cases v with
  | int i =>
    have htrim := trim_eq_self (Listing.plain_signedText i).not_white
    have hread := readSigned?_signedText i
    exact Option.map_eq_some_iff.mpr ⟨i, htrim.symm ▸ hread, rfl⟩
  | float x =>
    have htrim := trim_eq_self (Listing.plain_layout Layout.readable_plain h).not_white
    have hread := Double.read?_layout Layout.readable_plain h
    exact Option.map_eq_some_iff.mpr ⟨x, htrim.symm ▸ hread, rfl⟩
  | bool b => cases b <;> decide
  | str s => exact congrArg (some ∘ Value.str) String.ofList_toList

end Value

-- ---------------------------------------------------------------------------
-- Machines
-- ---------------------------------------------------------------------------

namespace Machine

variable {m : Machine} {v : Value} {rest : List UInt8}

/-- The machine that has read the line in front of the rest, and has asked for it if that is
wanted. -/
def behind (tag : Tag) (rest : List UInt8) (m : Machine) : Machine :=
  { m with
    input := rest
    output := m.output ++ if m.options.prompt then Instruction.question (.read tag) else "" }

theorem readLine_text {s : String} (hfeed : '\n' ∉ s.toList)
    (hreturn : s.toList.getLast? ≠ some '\r') (hinput : m.input = utf8Bytes (s ++ "\n") ++ rest) :
    readLine m = .ok s.toList { m with input := rest } := by
  have hempty : ¬ m.input.isEmpty := by
    rw [hinput, utf8Bytes_append, utf8Bytes_lineFeed]
    simp
  refine eq_ok_of_wp ?_
  rw [readLine_eq, wp_bind, wp_get, if_neg hempty, wp_bind, wp_set, hinput, takeLine_text hfeed,
    ofUtf8?_utf8Bytes]
  exact ⟨chomp_line hfeed hreturn, rfl⟩

/-- The value is read, and the input behind its line is left. -/
theorem readValue_text (hv : v.FitsLine) (hinput : m.input = utf8Bytes (v.text ++ "\n") ++ rest) :
    readValue v.tag m = .ok v (m.behind v.tag rest) := by
  obtain ⟨hfeed, hreturn⟩ := hv.text
  have hvalue : ∀ n : Machine, n.input = m.input →
      (readLine >>= lineValue v.tag) n = .ok v { n with input := rest } := by
    intro n hn
    rw [bind_of_ok (readLine_text hfeed hreturn (hn.trans hinput)), lineValue,
      Value.ofLine?_text hv]
    rfl
  rw [readValue_eq, bind_of_ok (x := MonadState.get) rfl, behind]
  cases m.options.prompt with
  | true => exact hvalue { m with output := m.output ++ _ } rfl
  | false =>
    rw [if_neg Bool.false_ne_true, if_neg Bool.false_ne_true, String.append_empty]
    exact hvalue m rfl

/-- What a step prints of one value. -/
theorem step_print_one {items : List Value} (hi : m.code[m.ip]? = some (.print 1))
    (hlimit : m.limitReached = none) (hitems : m.stack.items = v :: items) :
    m.step.1.output = m.output ++ (v.text ++ "\n") := by
  have hpop : ({ m with steps := m.steps + 1 } : Machine).stack.popMany (1 : UInt64).toNat =
      .ok ([v], { m.stack with items := items }) := by
    simp [Stack.popMany, Stack.depth, hitems]
  have htext : String.join ([v].map Value.text) = v.text := String.empty_append
  have hrun : execute (m.ip + 1) (.print 1) { m with steps := m.steps + 1 } =
      .ok (m.ip + 1) { m with
        steps := m.steps + 1
        stack := { m.stack with items := items }
        output := m.output ++ (v.text ++ "\n") } := by
    refine eq_ok_of_wp ?_
    rw [execute, wp_bind, wp_popMany, hpop, ← htext]
    exact ⟨rfl, rfl⟩
  rw [step_of_ok hi hlimit hrun]

/-- A step that reads a value pushes it. -/
theorem step_read_of_ok (hi : m.code[m.ip]? = some (.read v.tag)) (hlimit : m.limitReached = none)
    (hroom : m.stack.depth < m.stack.limit)
    (hread : ∀ n : Machine, n.input = m.input → readValue v.tag n = .ok v (n.behind v.tag rest)) :
    m.step = ({ m.behind v.tag rest with
      ip := m.ip + 1
      steps := m.steps + 1
      stack := { m.stack with items := v :: m.stack.items } }, .executed) := by
  have hpush : m.stack.push v = .ok { m.stack with items := v :: m.stack.items } :=
    if_neg (Nat.not_le.mpr hroom)
  have hpushed : push v (behind v.tag rest { m with steps := m.steps + 1 }) =
      .ok () { m.behind v.tag rest with
        steps := m.steps + 1
        stack := { m.stack with items := v :: m.stack.items } } := by
    have hpush' : (behind v.tag rest { m with steps := m.steps + 1 }).stack.push v =
        .ok { m.stack with items := v :: m.stack.items } := hpush
    refine eq_ok_of_wp ?_
    rw [wp_push, hpush']
    exact ⟨rfl, rfl⟩
  have hvalue := hread { m with steps := m.steps + 1 } rfl
  have hrun : execute (m.ip + 1) (.read v.tag) { m with steps := m.steps + 1 } =
      .ok (m.ip + 1) { m.behind v.tag rest with
        steps := m.steps + 1
        stack := { m.stack with items := v :: m.stack.items } } := by
    rw [execute, bind_of_ok hvalue, bind_of_ok hpushed]
    rfl
  exact step_of_ok hi hlimit hrun

/-- **What is printed can be read.** One machine prints a value that is a number, a truth
value or one line of text. If another machine comes to the line in its input, then it reads
the value under its tag, the same to the last bit, and the input behind the line is left.
Where a step may be made and there is room, a step that reads pushes the value. -/
theorem printed_reads_back {v : Value} (hv : v.FitsLine) {printer reader : Machine}
    {items : List Value} {line : String} {rest : List UInt8}
    (hprint : printer.code[printer.ip]? = some (.print 1))
    (hallowed : printer.limitReached = none) (hvalue : printer.stack.items = v :: items)
    (hline : printer.step.1.output = printer.output ++ line)
    (hinput : reader.input = utf8Bytes line ++ rest) :
    readValue v.tag reader = .ok v (reader.behind v.tag rest) ∧
      (reader.code[reader.ip]? = some (.read v.tag) → reader.limitReached = none →
        reader.stack.depth < reader.stack.limit →
        reader.step = ({ reader.behind v.tag rest with
          ip := reader.ip + 1
          steps := reader.steps + 1
          stack := { reader.stack with items := v :: reader.stack.items } }, .executed)) := by
  have hwritten := step_print_one hprint hallowed hvalue
  rw [hline, String.append_right_inj] at hwritten
  subst hwritten
  refine ⟨readValue_text hv hinput, fun hread hlimit hroom => ?_⟩
  exact step_read_of_ok hread hlimit hroom fun n hn => readValue_text hv (hn.trans hinput)

/-- Blanks at the ends of a text and a carriage return inside it are kept. -/
theorem printed_reads_back_blanks :
    let text := "\t a\rb "
    let printer : Machine := { start [.print 1] {} [] with stack := ⟨[.str text], 9⟩ }
    let reader := start [.read .string] { prompt := true } (utf8Bytes "\t a\rb \n\nc")
    printer.step.1.output = "\t a\rb \n" ∧
      reader.step = ({ reader.behind .string (utf8Bytes "\nc") with
        ip := 1, steps := 1, stack := ⟨[.str text], 1024⟩ }, .executed) := by
  intro text printer reader
  have hline : printer.step.1.output = printer.output ++ "\t a\rb \n" := by decide +kernel
  have hfits : (Value.str text).FitsLine := by
    show '\n' ∉ text.toList ∧ text.toList.getLast? ≠ some '\r'
    decide
  have hinput : reader.input = utf8Bytes "\t a\rb \n" ++ utf8Bytes "\nc" := by decide +kernel
  exact ⟨hline, (printed_reads_back hfits rfl rfl rfl hline hinput).2 rfl rfl (by decide)⟩

end Machine

end Cairn
