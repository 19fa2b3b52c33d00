import Cairn.Bytecode.Listing
import Cairn.Proofs.FloatText

/-!
# Cairn — listings read back

A listing separates words by white space and lines by line feeds, so a name can
stand in it only if it is one word: not empty, without white space and without
a quote in front. Arithmetic is listed with the tag of a number only. All other
instructions have a line of their own, which reads back as the instruction.

## Main statements

* `Listing.says_line`         — the line of an expressible instruction reads back.
* `Listing.read_write`        — the listing of expressible code reads back.
* `Listing.sayable_of_read`   — what is read from a listing can be said in one.
* `Listing.agrees_iff`        — code survives its listing if and only if it is expressible.
-/

namespace Cairn

-- ---------------------------------------------------------------------------
-- What a listing can express
-- ---------------------------------------------------------------------------

/-- A text that stands in a line as one word. -/
structure Plain (cs : List Char) : Prop where
  ne_nil : cs ≠ []
  not_white : ∀ c ∈ cs, isWhite c = false
  not_quote : cs.head? ≠ some '"'

namespace Instruction

/-- There is a line that is read as such an instruction, if not with the same
number. -/
@[simp] def Sayable : Instruction → Prop
  | .load name => Plain name.toList
  | .save name => Plain name.toList
  | .binary op => ∀ tag, op.tag? = some tag → tag = .int ∨ tag = .float
  | _ => True

/-- The instruction does not push something that is not a number. -/
@[simp] def PushesNumber : Instruction → Prop
  | .push (.float x) => x.isNaN = false
  | _ => True

/-- The instruction is what its line is read as. -/
@[simp] def Expressible (i : Instruction) : Prop :=
  i.Sayable ∧ i.PushesNumber

end Instruction

/-- Every name in the code is one word, arithmetic is on numbers, and whatever
is pushed is equal to itself. -/
def Code.Expressible (code : Code) : Prop :=
  ∀ i ∈ code, i.Expressible

instance (cs : List Char) : Decidable (Plain cs) :=
  have : Decidable (∀ c ∈ cs, isWhite c = false) := List.decidableBAll _ cs
  decidable_of_iff (cs ≠ [] ∧ (∀ c ∈ cs, isWhite c = false) ∧ cs.head? ≠ some '"')
    ⟨fun ⟨h₁, h₂, h₃⟩ => ⟨h₁, h₂, h₃⟩, fun ⟨h₁, h₂, h₃⟩ => ⟨h₁, h₂, h₃⟩⟩

/-- Neither a line feed nor a carriage return is in the text. -/
def OneLine (cs : List Char) : Prop :=
  ∀ c ∈ cs, c ≠ '\n' ∧ c ≠ '\r'

instance (cs : List Char) : Decidable (OneLine cs) :=
  List.decidableBAll (fun c => c ≠ '\n' ∧ c ≠ '\r') cs

theorem Plain.oneLine {cs : List Char} (h : Plain cs) : OneLine cs := by
  intro c hc
  have hwhite := h.not_white c hc
  constructor
  · rintro rfl
    exact absurd hwhite (by decide)
  · rintro rfl
    exact absurd hwhite (by decide)

namespace Listing

-- ---------------------------------------------------------------------------
-- Words
-- ---------------------------------------------------------------------------

theorem tokensFrom_word {cs : List Char} (hcs : ∀ c ∈ cs, isWhite c = false)
    (read rest : List Char) :
    tokensFrom (.word read) (cs ++ rest) = tokensFrom (.word (cs.reverse ++ read)) rest := by
  induction cs generalizing read with
  | nil => rfl
  | cons c cs ih =>
    have hc : isWhite c = false := hcs c List.mem_cons_self
    rw [List.cons_append, tokensFrom, hc, if_neg Bool.false_ne_true,
      ih (fun d hd => hcs d (List.mem_cons_of_mem _ hd)), List.reverse_cons, List.append_assoc]
    rfl

/-- A plain word is taken up as a whole. -/
theorem tokens_plain_append {cs : List Char} (hcs : Plain cs) (rest : List Char) :
    tokens (cs ++ rest) = tokensFrom (.word cs.reverse) rest := by
  obtain ⟨c, cs, rfl⟩ := List.exists_cons_of_ne_nil hcs.ne_nil
  have hwhite : isWhite c = false := hcs.not_white c List.mem_cons_self
  have hquote : c ≠ '"' := fun h => hcs.not_quote (congrArg some h)
  rw [tokens, List.cons_append, tokensFrom, hwhite, if_neg Bool.false_ne_true, if_neg hquote,
    tokensFrom_word fun d hd => hcs.not_white d (List.mem_cons_of_mem _ hd), List.reverse_cons]

theorem tokens_plain {s : String} (hs : Plain s.toList) : tokens s.toList = .ok [⟨s, false⟩] := by
  have h := tokens_plain_append hs []
  rw [List.append_nil] at h
  rw [h, tokensFrom, List.reverse_reverse, String.ofList_toList]

theorem tokens_space {s t : String} (hs : Plain s.toList) {ts : List Token}
    (ht : tokens t.toList = .ok ts) : tokens (s ++ " " ++ t).toList = .ok (⟨s, false⟩ :: ts) := by
  have hwhite : isWhite ' ' = true := by decide
  have htext : (s ++ " " ++ t).toList = s.toList ++ ' ' :: t.toList := by simp
  rw [htext, tokens_plain_append hs, tokensFrom, hwhite, if_pos rfl, List.reverse_reverse,
    String.ofList_toList]
  rw [tokens] at ht
  rw [ht]
  rfl

/-- Inside quotes every character is itself or escaped. -/
theorem tokensFrom_quote (cs read rest : List Char) :
    tokensFrom (.quote read) (cs.flatMap quoteChar ++ rest) =
      tokensFrom (.quote (cs.reverse ++ read)) rest := by
  induction cs generalizing read with
  | nil => rfl
  | cons c cs ih =>
    have hone : ∀ rest, tokensFrom (.quote read) (quoteChar c ++ rest) =
        tokensFrom (.quote (c :: read)) rest := by
      intro rest
      rw [quoteChar]
      split_ifs with hquote hback hfeed hreturn htab
      · simp [hquote, tokensFrom, unescapeChar?]
      · simp [hback, tokensFrom, unescapeChar?]
      · simp [hfeed, tokensFrom, unescapeChar?]
      · simp [hreturn, tokensFrom, unescapeChar?]
      · simp [htab, tokensFrom, unescapeChar?]
      · simp [tokensFrom, hback]
    rw [List.flatMap_cons, List.append_assoc, hone, ih, List.reverse_cons, List.append_assoc]
    rfl

theorem tokens_quoted (s : String) : tokens (quoted s).toList = .ok [⟨s, true⟩] := by
  have hwhite : isWhite '"' = false := by decide
  rw [quoted, String.toList_ofList, tokens, List.cons_append, tokensFrom, hwhite,
    if_neg Bool.false_ne_true, if_pos rfl, tokensFrom_quote, tokensFrom, List.append_nil,
    List.reverse_reverse, String.ofList_toList]
  rfl

-- ---------------------------------------------------------------------------
-- One line
-- ---------------------------------------------------------------------------

theorem plain_letter (tag : Tag) : Plain tag.letter.toList := by
  cases tag <;> decide

/-- Printed ASCII characters other than the quote. -/
def isInk (c : Char) : Bool :=
  0x21 ≤ c.toNat && c.toNat ≤ 0x7e && c != '"'

theorem plain_of_isInk {cs : List Char} (hne : cs ≠ []) (hcs : ∀ c ∈ cs, isInk c) : Plain cs := by
  refine ⟨hne, fun c hc => ?_, fun hquote => ?_⟩
  · have hink := hcs c hc
    simp only [isInk, Bool.and_eq_true, decide_eq_true_eq] at hink
    simp only [isWhite, whiteSpace, List.any_cons, List.any_nil, Bool.or_false,
      Bool.or_eq_false_iff, Bool.and_eq_false_iff, decide_eq_false_iff_not]
    omega
  · have hink := hcs '"' (List.mem_of_head? hquote)
    exact absurd hink (by decide)

theorem isInk_of_toNat {c : Char} (hlow : 0x23 ≤ c.toNat) (hhigh : c.toNat ≤ 0x7e) :
    isInk c := by
  have hne : c ≠ '"' := by
    rintro rfl
    exact absurd hlow (by decide)
  simp only [isInk, Bool.and_eq_true, decide_eq_true_eq, bne_iff_ne]
  exact ⟨by omega, hne⟩

theorem isInk_of_isDigit {c : Char} (h : c.isDigit) : isInk c := by
  have hfirst : 48 ≤ c.toNat := (Char.isDigit_iff_toNat.mp h).1
  have hlast : c.toNat ≤ 57 := (Char.isDigit_iff_toNat.mp h).2
  exact isInk_of_toNat (by omega) (by omega)

theorem isInk_of_isDecimalChar {c : Char} (h : isDecimalChar c) : isInk c := by
  simp only [isDecimalChar, Bool.or_eq_true, beq_iff_eq] at h
  rcases h with ((((h | rfl) | rfl) | rfl) | rfl) | rfl
  · exact isInk_of_isDigit h
  all_goals decide

theorem plain_unsignedText (n : Nat) : Plain (unsignedText n).toList := by
  rw [unsignedText, String.toList_ofList]
  exact plain_of_isInk (digitsOf_ne_nil n) fun c hc => isInk_of_isDigit (isDigit_of_mem_digitsOf hc)

theorem plain_signedText (i : Int64) : Plain (signedText i).toList := by
  have hdigits : ∀ c ∈ digitsOf i.toInt.natAbs, isInk c := fun c hc =>
    isInk_of_isDigit (isDigit_of_mem_digitsOf hc)
  rw [signedText, String.toList_ofList]
  split
  · refine plain_of_isInk (by simp) fun c hc => ?_
    rcases List.mem_cons.mp hc with rfl | hc
    · decide
    · exact hdigits c hc
  · exact plain_of_isInk (digitsOf_ne_nil _) hdigits

theorem plain_layout {l : Layout} (hl : l.Readable) {x : Double} (hx : x.isNaN = false) :
    Plain (l.double x).toList := by
  refine plain_of_isInk ?_ fun c hc => ?_
  · intro hnil
    have hread := Double.read?_layout hl hx
    rw [hnil] at hread
    cases hread
  · rcases Double.chars_layout hl hx c hc with h | h
    · exact isInk_of_isDecimalChar h
    · exact List.all_eq_true.mp (by decide : "inf".toList.all isInk) c h

theorem plain_boolText (b : Bool) : Plain (boolText b).toList := by
  cases b <;> decide

theorem oneLine_spaced {s t : String} (hs : OneLine s.toList) (ht : OneLine t.toList) :
    OneLine (s ++ " " ++ t).toList := by
  intro c hc
  simp only [String.toList_append, List.mem_append] at hc
  rcases hc with (hc | hc) | hc
  · exact hs c hc
  · rw [List.mem_singleton.mp hc]
    decide
  · exact ht c hc

theorem oneLine_quoted (s : String) : OneLine (quoted s).toList := by
  have hone : ∀ d, OneLine (quoteChar d) := by
    intro d
    rw [quoteChar]
    split_ifs with hquote hback hfeed hreturn htab
    · decide
    · decide
    · decide
    · decide
    · decide
    · intro c hc
      rw [List.mem_singleton.mp hc]
      exact ⟨hfeed, hreturn⟩
  intro c hc
  rw [quoted, String.toList_ofList, List.cons_append, List.mem_cons, List.mem_append] at hc
  rcases hc with rfl | hc | hc
  · decide
  · obtain ⟨d, -, hd⟩ := List.mem_flatMap.mp hc
    exact hone d c hd
  · rw [List.mem_singleton.mp hc]
    decide

/-- The text is a line that is read as the instruction. -/
structure Says (text : String) (i : Instruction) : Prop where
  read : readLine text.toList = .ok i
  oneLine : OneLine text.toList

theorem readOne_eq {α : Type} {mnemonic : String} {t : Token} {read? : Token → Option α} {a : α}
    (h : read? t = some a) (make : α → Instruction) :
    readOne mnemonic [t] read? make = .ok (make a) := by
  rw [readOne, h]

theorem name?_of_plain {name : String} (h : Plain name.toList) :
    Token.name? ⟨name, false⟩ = some name := by
  have hne : name ≠ "" := by
    rintro rfl
    exact h.ne_nil rfl
  simp [Token.name?, hne]

theorem label?_text (id : UInt32) : Token.label? ⟨unsignedText id.toNat, false⟩ = some id := by
  have hread := readUnsigned?_unsignedText id.toNat_lt_size
  simp [Token.label?, Token.plain?, hread]

theorem count?_text (count : UInt64) :
    Token.count? ⟨unsignedText count.toNat, false⟩ = some count := by
  have hread := readUnsigned?_unsignedText count.toNat_lt_size
  simp [Token.count?, Token.plain?, hread]

theorem tag?_letter (tag : Tag) : Token.tag? ⟨tag.letter, false⟩ = some tag := by
  cases tag <;> decide

theorem numericTag?_letter {tag : Tag} (h : tag = .int ∨ tag = .float) :
    Token.numericTag? ⟨tag.letter, false⟩ = some tag := by
  rcases h with rfl | rfl <;> decide

/-- The value stands behind its tag, in quotes if it is a text. -/
theorem says_push {v : Value} {t : Token} {text : String} (htext : tokens text.toList = .ok [t])
    (hline : OneLine text.toList) (hvalue : t.value? v.tag = some v) :
    Says ("push" ++ " " ++ (v.tag.letter ++ " " ++ text)) (.push v) where
  read := by
    rw [readLine, tokens_space (by decide) (tokens_space (plain_letter v.tag) htext)]
    show readInstruction "push" [⟨v.tag.letter, false⟩, t] = .ok (.push v)
    rw [readInstruction, readPush, tag?_letter]
    dsimp only
    rw [hvalue]
  oneLine := oneLine_spaced (by decide) (oneLine_spaced (plain_letter v.tag).oneLine hline)

theorem says_pushed {v : Value} (h : (Instruction.push v).PushesNumber) :
    Says (line (.push v)) (.push v) := by
  cases v with
  | int i =>
    have hplain := plain_signedText i
    refine says_push (tokens_plain hplain) hplain.oneLine ?_
    simp [Token.value?, Value.tag, Token.plain?, readSigned?_signedText]
  | float x =>
    have hplain := plain_layout Layout.readable_exact h
    refine says_push (tokens_plain hplain) hplain.oneLine ?_
    simp [Token.value?, Value.tag, Token.plain?, Double.read?_layout Layout.readable_exact h]
  | bool b =>
    have hplain := plain_boolText b
    refine says_push (tokens_plain hplain) hplain.oneLine ?_
    cases b <;> decide
  | str s => exact says_push (tokens_quoted s) (oneLine_quoted s) rfl

/-- A line of a name and an operand that is read by itself. -/
theorem says_operand {α : Type} {mnemonic text : String} {read? : Token → Option α}
    {make : α → Instruction} {a : α} (hm : Plain mnemonic.toList) (ht : Plain text.toList)
    (hinstruction : ∀ operands,
      readInstruction mnemonic operands = readOne mnemonic operands read? make)
    (h : read? ⟨text, false⟩ = some a) : Says (mnemonic ++ " " ++ text) (make a) where
  read := by
    rw [readLine, tokens_space hm (tokens_plain ht)]
    show readInstruction mnemonic [⟨text, false⟩] = .ok (make a)
    rw [hinstruction, readOne_eq h]
  oneLine := oneLine_spaced hm.oneLine ht.oneLine

/-- **The line of an expressible instruction reads back.** -/
theorem says_line {i : Instruction} (h : i.Expressible) : Says (line i) i := by
  obtain ⟨hsay, hnumber⟩ := h
  cases i with
  | push v => exact says_pushed hnumber
  | load name =>
    show Says ("load" ++ " " ++ name) _
    exact says_operand (by decide) hsay (fun _ => by rw [readInstruction]) (name?_of_plain hsay)
  | save name =>
    show Says ("save" ++ " " ++ name) _
    exact says_operand (by decide) hsay (fun _ => by rw [readInstruction]) (name?_of_plain hsay)
  | label id =>
    show Says ("label" ++ " " ++ unsignedText id.toNat) _
    exact says_operand (by decide) (plain_unsignedText _) (fun _ => by rw [readInstruction])
      (label?_text id)
  | jmp id =>
    show Says ("jmp" ++ " " ++ unsignedText id.toNat) _
    exact says_operand (by decide) (plain_unsignedText _) (fun _ => by rw [readInstruction])
      (label?_text id)
  | fjmp id =>
    show Says ("fjmp" ++ " " ++ unsignedText id.toNat) _
    exact says_operand (by decide) (plain_unsignedText _) (fun _ => by rw [readInstruction])
      (label?_text id)
  | print count =>
    show Says ("print" ++ " " ++ unsignedText count.toNat) _
    exact says_operand (by decide) (plain_unsignedText _) (fun _ => by rw [readInstruction])
      (count?_text count)
  | read tag =>
    show Says ("read" ++ " " ++ tag.letter) _
    exact says_operand (by decide) (plain_letter tag) (fun _ => by rw [readInstruction])
      (tag?_letter tag)
  | pop => exact ⟨by decide +kernel, by decide⟩
  | unary op => cases op <;> exact ⟨by decide +kernel, by decide⟩
  | binary op =>
    cases op with
    | add tag =>
      exact @says_operand _ "add" _ _ (fun tag => .binary (.add tag)) tag (by decide)
        (plain_letter tag) (fun _ => by rw [readInstruction]) (numericTag?_letter (hsay tag rfl))
    | sub tag =>
      exact @says_operand _ "sub" _ _ (fun tag => .binary (.sub tag)) tag (by decide)
        (plain_letter tag) (fun _ => by rw [readInstruction]) (numericTag?_letter (hsay tag rfl))
    | mul tag =>
      exact @says_operand _ "mul" _ _ (fun tag => .binary (.mul tag)) tag (by decide)
        (plain_letter tag) (fun _ => by rw [readInstruction]) (numericTag?_letter (hsay tag rfl))
    | div tag =>
      exact @says_operand _ "div" _ _ (fun tag => .binary (.div tag)) tag (by decide)
        (plain_letter tag) (fun _ => by rw [readInstruction]) (numericTag?_letter (hsay tag rfl))
    | _ => exact ⟨by decide +kernel, by decide⟩

-- ---------------------------------------------------------------------------
-- All lines
-- ---------------------------------------------------------------------------

theorem linesFrom_append {cs : List Char} (hcs : OneLine cs) (read rest : List Char) :
    linesFrom read (cs ++ rest) = linesFrom (cs.reverse ++ read) rest := by
  induction cs generalizing read with
  | nil => rfl
  | cons c cs ih =>
    have hc : c ≠ '\n' := (hcs c List.mem_cons_self).1
    have hrest : OneLine cs := fun d hd => hcs d (List.mem_cons_of_mem _ hd)
    have hstep : linesFrom read (c :: (cs ++ rest)) = linesFrom (c :: read) (cs ++ rest) := by
      rw [linesFrom]
      exact hc
    rw [List.cons_append, hstep, ih hrest, List.reverse_cons, List.append_assoc]
    rfl

/-- A text without line ends is the first line of what it is the start of. -/
theorem lines_append {cs : List Char} (hcs : OneLine cs) (rest : List Char) :
    lines (cs ++ '\n' :: rest) = cs :: lines rest := by
  have hlast : cs.reverse.head? ≠ some '\r' := by
    intro h
    exact (hcs '\r' (List.mem_reverse.mp (List.mem_of_head? h))).2 rfl
  rw [lines, linesFrom_append hcs, List.append_nil, linesFrom]
  simp only [if_neg hlast, List.reverse_reverse]
  rfl

/-- A blank line is not an instruction. -/
theorem readLine_of_white {cs : List Char} (hcs : cs.all isWhite) :
    readLine cs = .error .empty := by
  have htokens : tokens cs = .ok [] := by
    rw [tokens]
    induction cs with
    | nil => rfl
    | cons c cs ih =>
      rw [List.all_cons, Bool.and_eq_true] at hcs
      rw [tokensFrom, if_pos hcs.1, ih hcs.2]
  rw [readLine, htokens]

theorem Says.not_white {text : String} {i : Instruction} (h : Says text i) :
    text.toList.all isWhite = false := by
  refine Bool.eq_false_iff.mpr fun hwhite => ?_
  have hread := h.read
  rw [readLine_of_white hwhite] at hread
  cases hread

theorem toList_write_cons (i : Instruction) (code : Code) :
    (write (i :: code)).toList = (line i).toList ++ '\n' :: (write code).toList := by
  simp [write]

/-- **The listing of expressible code reads back.** -/
theorem read_write {code : Code} (h : code.Expressible) : read (write code) = .ok code := by
  have hlines : ∀ number, readLines number (lines (write code).toList) = .ok code := by
    induction code with
    | nil =>
      intro number
      rfl
    | cons i code ih =>
      intro number
      have hsays := says_line (h i List.mem_cons_self)
      have hrest := ih fun j hj => h j (List.mem_cons_of_mem _ hj)
      rw [toList_write_cons, lines_append hsays.oneLine, readLines, hsays.not_white,
        if_neg Bool.false_ne_true, hsays.read]
      dsimp only
      rw [hrest]
      rfl
  exact hlines 1

-- ---------------------------------------------------------------------------
-- What is read
-- ---------------------------------------------------------------------------

/-- A word that is not in quotes is plain. -/
def Token.Sound (t : Token) : Prop :=
  t.quoted = false → Plain t.text.toList

/-- What was read of a word so far can become one. -/
def TokenState.Sound : TokenState → Prop
  | .word read => Plain read.reverse
  | _ => True

theorem plain_singleton {c : Char} (hwhite : isWhite c = false) (hquote : c ≠ '"') : Plain [c] where
  ne_nil := List.cons_ne_nil c []
  not_white := fun _ hd => List.mem_singleton.mp hd ▸ hwhite
  not_quote := fun h => hquote (Option.some.inj h)

theorem plain_concat {cs : List Char} (hcs : Plain cs) {c : Char} (hc : isWhite c = false) :
    Plain (cs ++ [c]) := by
  obtain ⟨d, ds, rfl⟩ := List.exists_cons_of_ne_nil hcs.ne_nil
  refine ⟨by simp, fun e he => ?_, hcs.not_quote⟩
  rcases List.mem_append.mp he with he | he
  · exact hcs.not_white e he
  · exact List.mem_singleton.mp he ▸ hc

theorem sound_of_map {t : Token} {rest : Except LineFault (List Token)} {ts : List Token}
    (ht : t.Sound) (hrest : ∀ {us}, rest = .ok us → ∀ u ∈ us, u.Sound)
    (h : rest.map (t :: ·) = .ok ts) : ∀ u ∈ ts, u.Sound := by
  cases rest with
  | error e => cases h
  | ok us =>
    cases h
    intro u hu
    rcases List.mem_cons.mp hu with rfl | hu
    · exact ht
    · exact hrest rfl u hu

/-- Words that are not in quotes are plain, whatever the line. -/
theorem sound_of_tokensFrom {state : TokenState} {cs : List Char} {ts : List Token}
    (hstate : state.Sound) (h : tokensFrom state cs = .ok ts) : ∀ t ∈ ts, t.Sound := by
  have hword : ∀ {read : List Char}, (TokenState.word read).Sound →
      Token.Sound ⟨String.ofList read.reverse, false⟩ := by
    intro read hread _
    rw [String.toList_ofList]
    exact hread
  fun_induction tokensFrom state cs generalizing ts with
  | case1 =>
    cases h
    simp
  | case2 c cs hwhite ih => exact ih trivial h
  | case3 cs hwhite ih => exact ih trivial h
  | case4 c cs hwhite hquote ih =>
    exact ih (plain_singleton (Bool.eq_false_iff.mpr hwhite) hquote) h
  | case5 read =>
    cases h
    intro t ht
    exact List.mem_singleton.mp ht ▸ hword hstate
  | case6 read c cs hwhite ih => exact sound_of_map (hword hstate) (ih trivial) h
  | case7 read c cs hwhite ih =>
    refine ih ?_ h
    rw [TokenState.Sound, List.reverse_cons]
    exact plain_concat hstate (Bool.eq_false_iff.mpr hwhite)
  | case8 read => cases h
  | case9 read cs ih => exact sound_of_map (fun hquoted => by cases hquoted) (ih trivial) h
  | case10 read => cases h
  | case11 read c cs d hd ih => exact ih trivial h
  | case12 read c cs hnone => cases h
  | case13 read c cs hquote hlast hback ih => exact ih trivial h

theorem of_readOne {α : Type} {mnemonic : String} {operands : List Token} {read? : Token → Option α}
    {make : α → Instruction} {i : Instruction} (h : readOne mnemonic operands read? make = .ok i) :
    ∃ t a, t ∈ operands ∧ read? t = some a ∧ i = make a := by
  unfold readOne at h
  split at h
  · next t =>
    split at h
    · next a ha =>
      cases h
      exact ⟨t, a, List.mem_singleton_self t, ha, rfl⟩
    · cases h
  · cases h

theorem plain_of_name? {t : Token} {name : String} (ht : t.Sound) (h : t.name? = some name) :
    Plain name.toList := by
  rw [Token.name?] at h
  split at h
  · cases h
  · next hplain =>
    cases h
    rw [Bool.or_eq_true, not_or] at hplain
    exact ht (Bool.eq_false_iff.mpr hplain.1)

theorem numeric_of_numericTag? {t : Token} {tag : Tag} (h : t.numericTag? = some tag) :
    tag = .int ∨ tag = .float := by
  have hfilter := (Option.filter_eq_some_iff.mp h).2
  simpa using hfilter

theorem sayable_of_readPush {operands : List Token} {i : Instruction}
    (h : readPush operands = .ok i) : i.Sayable := by
  unfold readPush at h
  split at h
  · split at h
    · cases h
    · split at h
      · cases h
      · cases h
        trivial
  · cases h

theorem sayable_of_readBare {mnemonic : String} {operands : List Token} {i : Instruction}
    (h : readBare mnemonic operands = .ok i) : i.Sayable := by
  have hbare : ∀ j ∈ bare, j.Sayable := by simp [bare, Instruction.Sayable, Instruction.Binary.tag?]
  rw [readBare] at h
  split at h
  · cases h
  · next j hj =>
    split at h
    · cases h
      exact hbare i (List.mem_of_find?_eq_some hj)
    · cases h

/-- **What is read can be said.** -/
theorem sayable_of_readInstruction {mnemonic : String} {operands : List Token} {i : Instruction}
    (hoperands : ∀ t ∈ operands, t.Sound) (h : readInstruction mnemonic operands = .ok i) :
    i.Sayable := by
  have harithmetic : ∀ {mnemonic : String} {op : Tag → Instruction.Binary},
      (∀ tag, (op tag).tag? = some tag) →
      readOne mnemonic operands Token.numericTag? (fun tag => .binary (op tag)) = .ok i →
      i.Sayable := by
    intro mnemonic op hop h
    obtain ⟨t, tag, -, htag, rfl⟩ := of_readOne h
    intro tag' htag'
    rw [hop] at htag'
    exact Option.some.inj htag' ▸ numeric_of_numericTag? htag
  unfold readInstruction at h
  split at h
  · exact sayable_of_readPush h
  · obtain ⟨t, name, ht, hname, rfl⟩ := of_readOne h
    exact plain_of_name? (hoperands t ht) hname
  · obtain ⟨t, name, ht, hname, rfl⟩ := of_readOne h
    exact plain_of_name? (hoperands t ht) hname
  · obtain ⟨t, id, -, -, rfl⟩ := of_readOne h
    trivial
  · obtain ⟨t, id, -, -, rfl⟩ := of_readOne h
    trivial
  · obtain ⟨t, id, -, -, rfl⟩ := of_readOne h
    trivial
  · obtain ⟨t, count, -, -, rfl⟩ := of_readOne h
    trivial
  · obtain ⟨t, tag, -, -, rfl⟩ := of_readOne h
    trivial
  · exact harithmetic (fun _ => rfl) h
  · exact harithmetic (fun _ => rfl) h
  · exact harithmetic (fun _ => rfl) h
  · exact harithmetic (fun _ => rfl) h
  · exact sayable_of_readBare h

theorem sayable_of_readLine {cs : List Char} {i : Instruction} (h : readLine cs = .ok i) :
    i.Sayable := by
  unfold readLine at h
  split at h
  · cases h
  · cases h
  · next head operands htokens =>
    split at h
    · cases h
    · have hsound := @sound_of_tokensFrom .between cs _ trivial htokens
      exact sayable_of_readInstruction (fun t ht => hsound t (List.mem_cons_of_mem _ ht)) h

theorem sayable_of_read {text : String} {code : Code} (h : read text = .ok code) :
    ∀ i ∈ code, i.Sayable := by
  rw [read] at h
  generalize lines text.toList = ls at h
  generalize 1 = number at h
  induction ls generalizing number code with
  | nil =>
    cases h
    simp
  | cons cs ls ih =>
    rw [readLines] at h
    split at h
    · exact ih _ h
    · split at h
      · cases h
      · next i hi =>
        cases hrest : readLines (number + 1) ls with
        | error e =>
          rw [hrest] at h
          cases h
        | ok rest =>
          rw [hrest] at h
          cases h
          intro j hj
          rcases List.mem_cons.mp hj with rfl | hj
          · exact sayable_of_readLine hi
          · exact ih _ hrest j hj

-- ---------------------------------------------------------------------------
-- Code that survives its listing
-- ---------------------------------------------------------------------------

end Listing

theorem Double.eq_self {x : Double} (hx : x.isNaN = false) : x.eq x := by
  simp [Double.eq, hx]

theorem Instruction.agrees_self {i : Instruction} (h : i.PushesNumber) : i.agrees i := by
  cases i with
  | push v =>
    cases v with
    | float x => exact Double.eq_self h
    | _ => simp [Instruction.agrees, Value.agrees]
  | _ => simp [Instruction.agrees]

/-- An instruction that agrees with one that can be said is expressible: what is
not a number agrees with nothing. -/
theorem Instruction.expressible_of_agrees {i j : Instruction} (hi : i.Sayable)
    (h : i.agrees j) : j.Expressible := by
  unfold Instruction.agrees at h
  split at h
  · next v w =>
    refine ⟨trivial, ?_⟩
    cases w with
    | float y =>
      cases v with
      | float x =>
        have heq : x.eq y = true := h
        simp only [Double.eq, Bool.and_eq_true, Bool.not_eq_true'] at heq
        exact heq.1.2
      | _ => cases h
    | _ => trivial
  · next hpush =>
    obtain rfl := eq_of_beq h
    refine ⟨hi, ?_⟩
    cases i with
    | push v => exact absurd rfl (hpush v v rfl)
    | _ => trivial

theorem Code.agrees_self {code : Code} (h : ∀ i ∈ code, i.PushesNumber) :
    Code.agrees code code := by
  induction code with
  | nil => rfl
  | cons i code ih =>
    rw [Code.agrees, Bool.and_eq_true]
    exact ⟨Instruction.agrees_self (h i List.mem_cons_self),
      ih fun j hj => h j (List.mem_cons_of_mem _ hj)⟩

theorem Code.expressible_of_agrees {code code' : Code} (hsay : ∀ i ∈ code, i.Sayable)
    (h : Code.agrees code code') : code'.Expressible := by
  induction code generalizing code' with
  | nil =>
    cases code' with
    | nil => exact fun i hi => absurd hi (by simp)
    | cons j code' => cases h
  | cons i code ih =>
    cases code' with
    | nil => cases h
    | cons j code' =>
      rw [Code.agrees, Bool.and_eq_true] at h
      intro k hk
      rcases List.mem_cons.mp hk with rfl | hk
      · exact Instruction.expressible_of_agrees (hsay i List.mem_cons_self) h.1
      · exact ih (fun l hl => hsay l (List.mem_cons_of_mem _ hl)) h.2 k hk

/-- **Code survives its listing if and only if it is expressible.** -/
theorem Listing.agrees_iff (code : Code) :
    (∃ code', read (write code) = .ok code' ∧ Code.agrees code' code) ↔ code.Expressible := by
  constructor
  · rintro ⟨code', hread, hagrees⟩
    exact Code.expressible_of_agrees (sayable_of_read hread) hagrees
  · intro h
    exact ⟨code, read_write h, Code.agrees_self fun i hi => (h i hi).2⟩

end Cairn
