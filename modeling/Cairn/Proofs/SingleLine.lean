import Cairn.Report.Basic
import Cairn.Proofs.Echoes
import Cairn.Proofs.Failures
import Cairn.Proofs.RoundTrip

/-!
# Cairn — reports on one line

Failures without a place in the source are reported in one line. Its wording never
brings in a line feed, so it comes down to the texts that a fault cites from elsewhere,
and to where these come from.

A line of input has lost its end before it is cited, the words of a listing cannot hold a
line feed, and types and mnemonics are fixed. Two kinds of text are not so limited. A word
of a listing that stands in quotes is cited with its escapes resolved, and a name in code
that is not from a listing or a source may be any text at all. These break the line, and
nothing else does.

## Main definitions

* `Unbroken`, `IsLine`        — a text without line feeds, and such a text with its end.
* `Instruction.Raises`        — the faults that an instruction can end with.
* `LineFault.CitesLineFeed`   — the fault is about a word in quotes with a line feed.

## Main statements

* `Machine.execute_raises`    — there are no other faults.
* `Listing.unbroken_or_cites` — what the fault of a line cites.
* `Failure.report_single_line` — which reports are one line.
-/

namespace Cairn

-- ---------------------------------------------------------------------------
-- Texts and lines
-- ---------------------------------------------------------------------------

/-- There is no line feed in the text. -/
def Unbroken (s : String) : Prop :=
  '\n' ∉ s.toList

instance (s : String) : Decidable (Unbroken s) :=
  inferInstanceAs (Decidable ('\n' ∉ s.toList))

/-- The text is one line: a line feed ends it, and that is its only one. -/
def IsLine (s : String) : Prop :=
  ∃ body, Unbroken body ∧ s = body ++ "\n"

theorem unbroken_append {s t : String} : Unbroken (s ++ t) ↔ Unbroken s ∧ Unbroken t := by
  rw [Unbroken, String.toList_append, List.mem_append, not_or]
  exact Iff.rfl

/-- A text that is put in a frame. -/
theorem unbroken_framed {a s b : String} (ha : Unbroken a) (hb : Unbroken b) :
    Unbroken (a ++ s ++ b) ↔ ∀ t ∈ [s], Unbroken t := by
  simp only [unbroken_append, ha, hb, true_and, and_true, List.forall_mem_singleton]

theorem isLine_iff {s : String} : IsLine (s ++ "\n") ↔ Unbroken s := by
  constructor
  · rintro ⟨body, hbody, heq⟩
    obtain rfl : s = body := (String.append_left_inj "\n").mp heq
    exact hbody
  · exact fun h => ⟨s, h, rfl⟩

theorem unbroken_natText (n : Nat) : Unbroken (toString n) := by
  intro h
  have hdigit : '\n'.isDigit := @isDigit_of_mem_digitsOf n _ (by simpa [digitsOf] using h)
  exact absurd hdigit (by decide)

theorem Plain.unbroken {s : String} (h : Plain s.toList) : Unbroken s :=
  fun hmem => (h.oneLine '\n' hmem).1 rfl

theorem Ty.unbroken_name (ty : Ty) : Unbroken ty.name := by
  cases ty <;> decide +kernel

-- ---------------------------------------------------------------------------
-- Wordings
-- ---------------------------------------------------------------------------

/-- The texts that the wording of the fault takes over. -/
def Fault.cited : Fault → List String
  | .undefinedVariable name => [name]
  | .typeFault mnemonic operands => [mnemonic, operands]
  | .invalidInput _ text => [text]
  | _ => []

/-- The texts that the wording of the fault takes over. -/
def LineFault.cited : LineFault → List String
  | .unknownMnemonic text => [text]
  | .operandCount mnemonic _ _ => [mnemonic]
  | .badOperand mnemonic operand => [operand, mnemonic]
  | .badEscape c => [String.singleton c]
  | .empty | .unclosedString => []

/-- Only what is cited can break the line. -/
theorem Fault.unbroken_message (f : Fault) :
    Unbroken f.message ↔ ∀ text ∈ f.cited, Unbroken text := by
  have hnone : ∀ {s : String}, Unbroken s →
      (Unbroken s ↔ ∀ text ∈ ([] : List String), Unbroken text) :=
    fun hs => iff_of_true hs (List.forall_mem_nil _)
  cases f with
  | undefinedVariable name => exact unbroken_framed (by decide +kernel) (by decide +kernel)
  | typeFault mnemonic operands =>
    have hstart : Unbroken "'" := by decide +kernel
    have hmiddle : Unbroken "' cannot operate on " := by decide +kernel
    show Unbroken ("'" ++ mnemonic ++ "' cannot operate on " ++ operands) ↔ _
    simp [unbroken_append, cited, hstart, hmiddle]
  | invalidInput expected text =>
    refine unbroken_framed ?_ (by decide +kernel)
    rw [unbroken_append, unbroken_append]
    exact ⟨⟨by decide +kernel, expected.unbroken_name⟩, by decide +kernel⟩
  | stackOverflow limit =>
    exact hnone (unbroken_append.mpr ⟨by decide +kernel, unbroken_natText limit⟩)
  | unresolvedLabel id =>
    exact hnone (unbroken_append.mpr ⟨by decide +kernel, unbroken_natText id.toNat⟩)
  | stepLimit limit =>
    refine hnone ((unbroken_framed (by decide +kernel) (by decide +kernel)).mpr ?_)
    exact List.forall_mem_singleton.mpr (unbroken_natText limit)
  | stackUnderflow | divisionByZero | endOfInput | badEncoding => exact hnone (by decide +kernel)

theorem LineFault.unbroken_message (f : LineFault) :
    Unbroken f.message ↔ ∀ text ∈ f.cited, Unbroken text := by
  cases f with
  | unknownMnemonic text => exact unbroken_framed (by decide +kernel) (by decide +kernel)
  | badEscape c => exact unbroken_framed (by decide +kernel) (by decide +kernel)
  | operandCount mnemonic expected found =>
    have hstart : Unbroken "'" := by decide +kernel
    have hexpects : Unbroken "' expects " := by decide +kernel
    have hfound : Unbroken " operand(s), found " := by decide +kernel
    show Unbroken ("'" ++ mnemonic ++ "' expects " ++ toString expected ++ " operand(s), found " ++
      toString found) ↔ _
    simp only [unbroken_append, hstart, hexpects, hfound, unbroken_natText, true_and, and_true,
      cited, List.forall_mem_singleton]
  | badOperand mnemonic operand =>
    have hstart : Unbroken "invalid operand '" := by decide +kernel
    have hmiddle : Unbroken "' for '" := by decide +kernel
    have hstop : Unbroken "'" := by decide +kernel
    show Unbroken ("invalid operand '" ++ operand ++ "' for '" ++ mnemonic ++ "'") ↔ _
    simp [unbroken_append, cited, hstart, hmiddle, hstop]
  | empty | unclosedString => exact iff_of_true (by decide +kernel) (List.forall_mem_nil _)

-- ---------------------------------------------------------------------------
-- Lines of input
-- ---------------------------------------------------------------------------

/-- A line feed is the last byte of its line. -/
theorem lineFeed_not_mem_takeLine (input : List UInt8) : 10 ∉ (takeLine input).1.dropLast := by
  fun_induction takeLine input with
  | case1 => exact List.not_mem_nil
  | case2 rest => exact List.not_mem_nil
  | case3 b rest hb line ih =>
    show 10 ∉ (b :: line.1).dropLast
    cases hline : line.1 with
    | nil => exact List.not_mem_nil
    | cons c cs =>
      rw [hline] at ih
      rw [List.dropLast_cons_cons, List.mem_cons, not_or]
      exact ⟨Ne.symm hb, ih⟩

/-- So it is the last character, if the line is text. -/
theorem lineFeed_not_mem_text {input : List UInt8} {text : String}
    (h : ofUtf8? (takeLine input).1 = some text) : '\n' ∉ text.toList.dropLast := by
  intro hmem
  rcases List.eq_nil_or_concat text.toList with hnil | ⟨init, last, hlist⟩
  · rw [hnil] at hmem
    exact List.not_mem_nil hmem
  · rw [List.concat_eq_append] at hlist
    rw [hlist, List.dropLast_concat] at hmem
    have htext : text = String.ofList init ++ String.singleton last :=
      String.toList_inj.mp (by simp [hlist])
    have hbytes : (takeLine input).1 =
        utf8Bytes (String.ofList init) ++ utf8Bytes (String.singleton last) := by
      rw [← utf8Bytes_of_ofUtf8? h, htext, utf8Bytes_append]
    have hfeed : 10 ∈ utf8Bytes (String.ofList init) :=
      mem_utf8Bytes.mpr ⟨'\n', by simpa using hmem, by decide⟩
    have hlast : utf8Bytes (String.singleton last) ≠ [] := by
      intro hnil
      have hread := ofUtf8?_utf8Bytes (String.singleton last)
      rw [hnil, show [] = utf8Bytes "" from rfl, ofUtf8?_utf8Bytes] at hread
      have hlist := congrArg String.toList (Option.some.inj hread)
      simp at hlist
    have hinside := lineFeed_not_mem_takeLine input
    rw [hbytes, List.dropLast_append_of_ne_nil hlast] at hinside
    exact hinside (List.mem_append_left _ hfeed)

/-- A line without its end has no line feed left. -/
theorem lineFeed_not_mem_chomp {cs : List Char} (h : '\n' ∉ cs.dropLast) : '\n' ∉ chomp cs := by
  rcases List.eq_nil_or_concat cs with rfl | ⟨init, last, rfl⟩
  · exact List.not_mem_nil
  · rw [List.concat_eq_append] at h ⊢
    rw [List.dropLast_concat] at h
    by_cases hlast : last == '\n' || last == '\r'
    · rw [chomp, trimEndWhile_concat hlast, trimEndWhile]
      intro hmem
      have hsub := (List.dropWhile_sublist _).subset (List.mem_reverse.mp hmem)
      exact h (List.mem_reverse.mp hsub)
    · rw [chomp, trimEndWhile_eq_self (by simpa using hlast)]
      intro hmem
      rcases List.mem_append.mp hmem with hmem | hmem
      · exact h hmem
      · obtain rfl := List.mem_singleton.mp hmem
        exact hlast rfl

-- ---------------------------------------------------------------------------
-- Faults of a run
-- ---------------------------------------------------------------------------

/-- The faults that an instruction can end with. -/
inductive Instruction.Raises : Instruction → Fault → Prop
  | underflow (i : Instruction) : Raises i .stackUnderflow
  | overflow (i : Instruction) (limit : Nat) : Raises i (.stackOverflow limit)
  | unset (name : String) : Raises (.load name) (.undefinedVariable name)
  | astray {i : Instruction} {id : UInt32} : i.target? = some id → Raises i (.unresolvedLabel id)
  | condition (id : UInt32) (v : Value) : Raises (.fjmp id) (.ofOperand "fjmp" v)
  | operand (op : Instruction.Unary) (v : Value) : Raises (.unary op) (.ofOperand op.mnemonic v)
  | operands (op : Instruction.Binary) (left right : Value) :
    Raises (.binary op) (.ofOperands op.mnemonic left right)
  | byZero (op : Instruction.Binary) : Raises (.binary op) .divisionByZero
  | atEnd (tag : Tag) : Raises (.read tag) .endOfInput
  | encoding (tag : Tag) : Raises (.read tag) .badEncoding
  | input (tag : Tag) {line : List Char} : '\n' ∉ line →
    Raises (.read tag) (.invalidInput tag.ty (String.ofList line))

namespace Machine

/-- If the action fails, it does so with a fault of the instruction. -/
def Raising {α : Type} (i : Instruction) (x : Action α) : Prop :=
  ∀ m : Machine, wp x (fun _ _ => True) (fun f _ => i.Raises f) m

namespace Raising

variable {α β : Type} {i : Instruction}

theorem bind {x : Action α} {g : α → Action β} (hx : Raising i x) (hg : ∀ a, Raising i (g a)) :
    Raising i (x >>= g) :=
  fun m => wp_bind.mpr ((hx m).mono (fun a n _ => hg a n) fun _ _ h => h)

theorem pure (a : α) : Raising i (Pure.pure a : Action α) := fun _ => trivial

theorem throw {f : Fault} (h : i.Raises f) : Raising i (MonadExcept.throw f : Action α) :=
  fun _ => h

theorem get : Raising i (MonadState.get : Action Machine) := fun _ => trivial

theorem modify (f : Machine → Machine) : Raising i (modify f) := fun _ => trivial

theorem push (v : Value) : Raising i (Machine.push v) := by
  intro m
  rw [wp_push]
  cases hpush : m.stack.push v with
  | ok stack => exact trivial
  | error f =>
    rw [Stack.push] at hpush
    split at hpush <;> cases hpush
    exact .overflow i _

theorem pop : Raising i Machine.pop := by
  intro m
  rw [wp_pop]
  cases hpop : m.stack.pop with
  | ok result => exact trivial
  | error f =>
    rw [Stack.pop] at hpop
    split at hpop <;> cases hpop
    exact .underflow i

theorem popMany (n : Nat) : Raising i (Machine.popMany n) := by
  intro m
  rw [wp_popMany]
  cases hpop : m.stack.popMany n with
  | ok result => exact trivial
  | error f =>
    rw [Stack.popMany] at hpop
    split at hpop <;> cases hpop
    exact .underflow i

theorem resolve {id : UInt32} (h : i.target? = some id) : Raising i (Machine.resolve id) := by
  intro m
  rw [wp_resolve]
  cases Code.labelIndex? m.code id with
  | some index => exact trivial
  | none => exact .astray h

theorem pushResult (next : Nat) {result : Except Fault Value}
    (h : ∀ f, result = .error f → i.Raises f) : Raising i (Machine.pushResult next result) := by
  cases result with
  | ok v => exact bind (push v) fun _ => pure next
  | error f => exact throw (h f rfl)

/-- The line that a value is read from was cut off at its end. -/
theorem line (tag : Tag) : Raising (.read tag) (readLine >>= lineValue tag) := by
  intro m
  rw [readLine_eq, wp_bind, wp_bind, wp_get]
  by_cases hempty : m.input.isEmpty
  · rw [if_pos hempty]
    exact .atEnd tag
  · rw [if_neg hempty, wp_bind, wp_set]
    cases htext : ofUtf8? (takeLine m.input).1 with
    | none => exact .encoding tag
    | some text =>
      have hline := lineFeed_not_mem_chomp (lineFeed_not_mem_text htext)
      rw [lineChars, wp_pure, lineValue]
      cases Value.ofLine? tag (chomp text.toList) with
      | some v => exact trivial
      | none => exact .input tag hline

theorem readValue (tag : Tag) : Raising (.read tag) (Machine.readValue tag) := by
  rw [readValue_eq]
  refine bind get fun m => ?_
  split
  · exact bind (modify _) fun _ => line tag
  · exact line tag

end Raising

/-- **What an instruction fails with**, whatever the machine. -/
theorem execute_raises (next : Nat) (i : Instruction) : Raising i (execute next i) := by
  cases i with
  | push v => exact .bind (.push v) fun _ => .pure next
  | pop => exact .bind .pop fun _ => .pure next
  | load x =>
    refine .bind .get fun m => ?_
    cases m.store.find? x with
    | some v => exact .bind (.push v) fun _ => .pure next
    | none => exact .throw (.unset x)
  | save x => exact .bind .pop fun v => .bind (.modify _) fun _ => .pure next
  | label id => exact .pure next
  | jmp id => exact .resolve rfl
  | fjmp id =>
    refine .bind .pop fun v => ?_
    split
    · exact .pure next
    · exact .resolve rfl
    · exact .throw (.condition id _)
  | print count => exact .bind (.popMany _) fun _ => .bind (.modify _) fun _ => .pure next
  | read tag => exact .bind (.readValue tag) fun v => .bind (.push v) fun _ => .pure next
  | unary op =>
    rw [execute_unary]
    refine .bind .pop fun v => .pushResult next fun f hf => ?_
    rw [op.fault_of_apply hf]
    exact .operand op v
  | binary op =>
    rw [execute_binary]
    refine .bind .pop fun right => .bind .pop fun left => .pushResult next fun f hf => ?_
    rcases op.fault_of_apply hf with rfl | rfl
    · exact .byZero op
    · exact .operands op left right

variable {m n : Machine} {f : Fault}

/-- A step fails by the limit on steps or with a fault of an instruction of the code. -/
theorem step_raises (h : m.step = (n, .failed f)) :
    (∃ limit, f = .stepLimit limit) ∨ ∃ i ∈ m.code, i.Raises f := by
  have hcases := step_cases m
  rw [h] at hcases
  cases hcases with
  | @limited i limit hi hlimit => exact .inl ⟨limit, rfl⟩
  | @failed i _ _ hi hlimit hrun =>
    exact .inr ⟨i, List.mem_of_getElem? hi, (execute_raises _ i _).of_error hrun⟩

theorem step_code (h : m.step = (n, .executed)) : n.code = m.code := by
  have hcases := step_cases m
  rw [h] at hcases
  cases hcases with
  | executed hi hlimit hrun =>
    have hapart : Apart Machine.code := ⟨fun _ _ => rfl, fun _ _ => rfl, fun _ _ => rfl⟩
    obtain ⟨store, hcode⟩ := (execute_keeps Machine.code hapart _ _ _).of_ok hrun
    exact hcode

/-- So does a run. -/
theorem runFor_raises {k : Nat} (h : (m.runFor k).2 = some (.failed f)) :
    (∃ limit, f = .stepLimit limit) ∨ ∃ i ∈ m.code, i.Raises f := by
  induction k generalizing m with
  | zero => cases h
  | succ k ih =>
    rcases hstep : m.step with ⟨next, result⟩
    cases result with
    | executed =>
      rw [runFor_of_executed hstep] at h
      rw [← step_code hstep]
      exact ih h
    | halted =>
      rw [runFor_of_halted hstep] at h
      cases h
    | failed g =>
      rw [runFor_of_failed hstep] at h
      cases h
      exact step_raises hstep

end Machine

/-- Of all texts that a fault of an instruction cites, only a name can hold a line feed. -/
theorem Instruction.Raises.unbroken {i : Instruction} {f : Fault} (h : i.Raises f)
    (hname : ∀ name, f = .undefinedVariable name → Unbroken name) : Unbroken f.message := by
  have hunary : ∀ op : Instruction.Unary, Unbroken op.mnemonic := by
    intro op
    cases op <;> decide +kernel
  have hbinary : ∀ op : Instruction.Binary, Unbroken op.mnemonic := by
    intro op
    cases op <;> dsimp only [Binary.mnemonic] <;> decide +kernel
  have htypes : ∀ v w : Value, Unbroken (v.ty.name ++ " and " ++ w.ty.name) := by
    intro v w
    rw [unbroken_append, unbroken_append]
    exact ⟨⟨v.ty.unbroken_name, by decide +kernel⟩, w.ty.unbroken_name⟩
  refine f.unbroken_message.mpr fun text htext => ?_
  cases h with
  | unset name => exact List.mem_singleton.mp htext ▸ hname name rfl
  | condition id v =>
    rcases List.mem_cons.mp htext with rfl | htext
    · decide +kernel
    · exact List.mem_singleton.mp htext ▸ v.ty.unbroken_name
  | operand op v =>
    rcases List.mem_cons.mp htext with rfl | htext
    · exact hunary op
    · exact List.mem_singleton.mp htext ▸ v.ty.unbroken_name
  | operands op v w =>
    rcases List.mem_cons.mp htext with rfl | htext
    · exact hbinary op
    · exact List.mem_singleton.mp htext ▸ htypes v w
  | input tag hline =>
    obtain rfl := List.mem_singleton.mp htext
    rwa [Unbroken, String.toList_ofList]
  | underflow | overflow | astray | byZero | atEnd | encoding => exact absurd htext List.not_mem_nil

-- ---------------------------------------------------------------------------
-- Faults of a listing
-- ---------------------------------------------------------------------------

theorem lineFeed_not_mem_linesFrom {read cs line : List Char} (hread : '\n' ∉ read)
    (h : line ∈ linesFrom read cs) : '\n' ∉ line := by
  fun_induction linesFrom read cs with
  | case1 read hempty => exact absurd h List.not_mem_nil
  | case2 read hempty =>
    rw [List.mem_singleton.mp h, List.mem_reverse]
    exact hread
  | case3 read cs kept ih =>
    rcases List.mem_cons.mp h with rfl | h
    · rw [List.mem_reverse]
      intro hkept
      refine hread ?_
      simp only [kept] at hkept
      split at hkept
      · exact List.mem_of_mem_tail hkept
      · exact hkept
    · exact ih List.not_mem_nil h
  | case4 read c cs hc ih =>
    refine ih (fun hmem => ?_) h
    rcases List.mem_cons.mp hmem with heq | hmem
    · exact hc heq.symm
    · exact hread hmem

/-- No line of a text holds a line feed. -/
theorem lineFeed_not_mem_lines {cs line : List Char} (h : line ∈ lines cs) : '\n' ∉ line :=
  lineFeed_not_mem_linesFrom List.not_mem_nil h

namespace Listing

/-- Cutting a line into words fails at the end of the line or at an escape. -/
theorem fault_of_tokensFrom {state : TokenState} {cs : List Char} {fault : LineFault}
    (h : tokensFrom state cs = .error fault) :
    fault = .unclosedString ∨ ∃ c ∈ cs, fault = .badEscape c := by
  have hlater : ∀ {c : Char} {cs : List Char},
      (fault = .unclosedString ∨ ∃ d ∈ cs, fault = .badEscape d) →
      fault = .unclosedString ∨ ∃ d ∈ c :: cs, fault = .badEscape d :=
    fun h => h.imp_right fun hd => hd.imp fun _ hd => ⟨List.mem_cons_of_mem _ hd.1, hd.2⟩
  have hmap : ∀ {rest : Except LineFault (List Token)} {g : List Token → List Token},
      rest.map g = .error fault → rest = .error fault := by
    intro rest g hrest
    cases rest with
    | ok ts => cases hrest
    | error e =>
      cases hrest
      rfl
  fun_induction tokensFrom state cs with
  | case1 => cases h
  | case2 c cs hwhite ih => exact hlater (ih h)
  | case3 cs hwhite ih => exact hlater (ih h)
  | case4 c cs hwhite hquote ih => exact hlater (ih h)
  | case5 read => cases h
  | case6 read c cs hwhite ih => exact hlater (ih (hmap h))
  | case7 read c cs hwhite ih => exact hlater (ih h)
  | case8 read =>
    cases h
    exact .inl rfl
  | case9 read cs ih => exact hlater (ih (hmap h))
  | case10 read =>
    cases h
    exact .inl rfl
  | case11 read c cs d hd ih => exact hlater (hlater (ih h))
  | case12 read c cs hnone =>
    cases h
    exact .inr ⟨c, by simp, rfl⟩
  | case13 read c cs hquote hlast hback ih => exact hlater (ih h)

/-- The instruction with this name cannot be read from these operands. -/
def Refuses (mnemonic : String) (operands : List Token) (fault : LineFault) : Prop :=
  fault = .unknownMnemonic mnemonic ∨
    (∃ expected, fault = .operandCount mnemonic expected operands.length) ∨
    ∃ t ∈ operands, fault = .badOperand mnemonic t.text

variable {mnemonic : String} {operands : List Token} {fault : LineFault}

theorem refuses_of_readOne {α : Type} {read? : Token → Option α} {make : α → Instruction}
    (h : readOne mnemonic operands read? make = .error fault) :
    Refuses mnemonic operands fault := by
  unfold readOne at h
  split at h
  · next t =>
    split at h
    · cases h
    · cases h
      exact .inr (.inr ⟨t, List.mem_singleton_self t, rfl⟩)
  · cases h
    exact .inr (.inl ⟨1, rfl⟩)

theorem refuses_of_readPush (h : readPush operands = .error fault) :
    Refuses "push" operands fault := by
  unfold readPush at h
  split at h
  · next tag value =>
    split at h
    · cases h
      exact .inr (.inr ⟨tag, by simp, rfl⟩)
    · split at h
      · cases h
        exact .inr (.inr ⟨value, by simp, rfl⟩)
      · cases h
  · cases h
    exact .inr (.inl ⟨2, rfl⟩)

theorem refuses_of_readBare (h : readBare mnemonic operands = .error fault) :
    Refuses mnemonic operands fault := by
  rw [readBare] at h
  split at h
  · cases h
    exact .inl rfl
  · split at h
    · cases h
    · cases h
      exact .inr (.inl ⟨0, rfl⟩)

theorem refuses_of_readInstruction (h : readInstruction mnemonic operands = .error fault) :
    Refuses mnemonic operands fault := by
  unfold readInstruction at h
  split at h
  · exact refuses_of_readPush h
  all_goals first | exact refuses_of_readOne h | exact refuses_of_readBare h

end Listing

/-- The fault is about a word of the line that stands in quotes and, with its escapes
resolved, holds a line feed. -/
def LineFault.CitesLineFeed (line : List Char) (fault : LineFault) : Prop :=
  ∃ words text, Listing.tokens line = .ok words ∧ ⟨text, true⟩ ∈ words ∧ ¬ Unbroken text ∧
    (fault = .unknownMnemonic text ∨ ∃ mnemonic, fault = .badOperand mnemonic text)

theorem LineFault.CitesLineFeed.broken {line : List Char} {fault : LineFault}
    (h : fault.CitesLineFeed line) : ¬ Unbroken fault.message := by
  obtain ⟨words, text, -, -, hbroken, rfl | ⟨mnemonic, rfl⟩⟩ := h
  · exact fun hmessage => hbroken ((unbroken_message _).mp hmessage text List.mem_cons_self)
  · exact fun hmessage => hbroken ((unbroken_message _).mp hmessage text List.mem_cons_self)

namespace Listing

/-- **What the fault of a line cites.** Words that are not in quotes hold no white space,
and escapes are cited as they stand. -/
theorem unbroken_or_cites {line : List Char} {fault : LineFault} (hline : '\n' ∉ line)
    (h : readLine line = .error fault) : Unbroken fault.message ∨ fault.CitesLineFeed line := by
  unfold readLine at h
  split at h
  · next htokens =>
    cases h
    refine .inl ((LineFault.unbroken_message _).mpr fun text htext => ?_)
    rcases fault_of_tokensFrom htokens with rfl | ⟨c, hc, rfl⟩
    · exact absurd htext List.not_mem_nil
    · rw [List.mem_singleton.mp htext, Unbroken, String.toList_singleton, List.mem_singleton]
      rintro rfl
      exact hline hc
  · cases h
    exact .inl (by decide +kernel)
  · next head operands htokens =>
    have hsound := @sound_of_tokensFrom .between line _ trivial htokens
    -- A word in quotes is cited as a whole, and either is unbroken or not.
    have hcited : ∀ t ∈ head :: operands, ∀ {fault : LineFault},
        (fault = .unknownMnemonic t.text ∨ ∃ mnemonic, fault = .badOperand mnemonic t.text) →
        Unbroken t.text ∨ fault.CitesLineFeed line := by
      intro t ht fault hfault
      by_cases hbroken : Unbroken t.text
      · exact .inl hbroken
      · have hquoted : t.quoted = true := by
          by_contra hplain
          exact hbroken (hsound t ht (Bool.eq_false_iff.mpr hplain)).unbroken
        obtain ⟨text, quoted⟩ := t
        obtain rfl : quoted = true := hquoted
        exact .inr ⟨_, text, htokens, ht, hbroken, hfault⟩
    split at h
    · cases h
      rcases hcited head List.mem_cons_self (.inl rfl) with htext | hcites
      · exact .inl ((LineFault.unbroken_message _).mpr (List.forall_mem_singleton.mpr htext))
      · exact .inr hcites
    · next hplain =>
      have hmnemonic : Unbroken head.text :=
        (hsound head List.mem_cons_self (Bool.eq_false_iff.mpr hplain)).unbroken
      rcases refuses_of_readInstruction h with rfl | ⟨expected, rfl⟩ | ⟨t, ht, rfl⟩
      · exact .inl ((LineFault.unbroken_message _).mpr (List.forall_mem_singleton.mpr hmnemonic))
      · exact .inl ((LineFault.unbroken_message _).mpr (List.forall_mem_singleton.mpr hmnemonic))
      · rcases hcited t (List.mem_cons_of_mem _ ht) (.inr ⟨head.text, rfl⟩) with htext | hcites
        · refine .inl ((LineFault.unbroken_message _).mpr ?_)
          exact List.forall_mem_cons.mpr ⟨htext, List.forall_mem_singleton.mpr hmnemonic⟩
        · exact .inr hcites

/-- The error of a listing is the fault of one of its lines. -/
theorem exists_of_readLines {number : Nat} {ls : List (List Char)} {e : ListingError}
    (h : readLines number ls = .error e) :
    ∃ k line, ls[k]? = some line ∧ e.line = number + k ∧ readLine line = .error e.fault := by
  induction ls generalizing number with
  | nil => cases h
  | cons cs ls ih =>
    have hlater : readLines (number + 1) ls = .error e → ∃ k line,
        (cs :: ls)[k]? = some line ∧ e.line = number + k ∧ readLine line = .error e.fault := by
      intro hrest
      obtain ⟨k, line, hline, hnumber, hfault⟩ := ih hrest
      exact ⟨k + 1, line, hline, by omega, hfault⟩
    rw [readLines] at h
    split at h
    · exact hlater h
    · split at h
      · next fault hfault =>
        cases h
        exact ⟨0, cs, rfl, rfl, hfault⟩
      · cases hrest : readLines (number + 1) ls with
        | ok code =>
          rw [hrest] at h
          cases h
        | error e' =>
          rw [hrest] at h
          cases h
          exact hlater hrest

end Listing

-- ---------------------------------------------------------------------------
-- Reports
-- ---------------------------------------------------------------------------

section

variable {ε ε' α : Type} {x : Except ε α} {g : ε → ε'}

theorem of_mapError_ok {a : α} (h : x.mapError g = .ok a) : x = .ok a := by
  cases x with
  | ok b =>
    cases h
    rfl
  | error e => cases h

theorem of_mapError_error {e' : ε'} (h : x.mapError g = .error e') :
    ∃ e, x = .error e ∧ e' = g e := by
  cases x with
  | ok b => cases h
  | error e =>
    cases h
    exact ⟨e, rfl, rfl⟩

end

theorem WireFault.unbroken_message (fault : WireFault) : Unbroken fault.message := by
  cases fault <;> decide +kernel

namespace Failure

variable {colour : Bool} {file source : String}

theorem writeRows_bare (text : String) : writeRows colour [[.bare text]] = text ++ "\n" := by
  have hwrite : Piece.write colour (.bare text) = text := by cases colour <;> rfl
  show String.join [String.join [Piece.write colour (.bare text)] ++ "\n"] = _
  rw [hwrite]
  exact String.empty_append.trans (congrArg (· ++ "\n") String.empty_append)

/-- A report in one row is a line if the message behind its title is unbroken. -/
theorem isLine_titled {title message : String} (htitle : Unbroken title) :
    IsLine (writeRows colour [[.bare (title ++ message)]]) ↔ Unbroken message := by
  rw [writeRows_bare, isLine_iff, unbroken_append]
  exact and_iff_right htitle

theorem isLine_runtime {f : Fault} :
    IsLine (report colour file source (.runtime f)) ↔ Unbroken f.message :=
  isLine_titled (by decide +kernel)

theorem isLine_decode {e : DecodeError} :
    IsLine (report colour file source (.decode e)) ↔ Unbroken e.message :=
  isLine_titled (by decide +kernel)

theorem isLine_listing {e : ListingError} :
    IsLine (report colour file source (.decode (.listing e))) ↔ Unbroken e.fault.message := by
  have hline : Unbroken "line " := by decide +kernel
  have hcolon : Unbroken ": " := by decide +kernel
  rw [isLine_decode]
  show Unbroken ("line " ++ toString e.line ++ ": " ++ e.fault.message) ↔ _
  simp only [unbroken_append, hline, hcolon, unbroken_natText, true_and]

theorem isLine_wire (fault : WireFault) :
    IsLine (report colour file source (.decode (.wire fault))) := by
  rw [isLine_decode]
  exact unbroken_append.mpr ⟨by decide +kernel, fault.unbroken_message⟩

/-- The report of a run is one line unless a name breaks it, which is one that the code
loads. -/
theorem isLine_of_runFor {m : Machine} {n : Nat} {f : Fault}
    (h : (m.runFor n).2 = some (.failed f)) :
    (IsLine (report colour file source (.runtime f)) ↔
      ∀ name, f = .undefinedVariable name → Unbroken name) ∧
      ∀ name, f = .undefinedVariable name → .load name ∈ m.code := by
  rw [isLine_runtime]
  have hname : Unbroken f.message → ∀ name, f = .undefinedVariable name → Unbroken name := by
    rintro hmessage name rfl
    exact (Fault.unbroken_message _).mp hmessage name List.mem_cons_self
  rcases Machine.runFor_raises h with ⟨limit, rfl⟩ | ⟨i, hi, hraises⟩
  · refine ⟨⟨hname, fun _ => ?_⟩, by rintro _ ⟨⟩⟩
    exact (Fault.unbroken_message _).mpr (List.forall_mem_nil _)
  · refine ⟨⟨hname, hraises.unbroken⟩, ?_⟩
    rintro name rfl
    cases hraises with
    | unset => exact hi

/-- The report of a listing that cannot be read is one line unless a word in quotes
breaks it. -/
theorem isLine_of_decodeText {text : String} {e : DecodeError} (h : decodeText text = .error e) :
    ∃ k line fault, e = .listing ⟨k + 1, fault⟩ ∧ (lines text.toList)[k]? = some line ∧
      (IsLine (report colour file source (.decode e)) ↔ ¬ fault.CitesLineFeed line) := by
  obtain ⟨⟨number, fault⟩, hread, rfl⟩ := of_mapError_error h
  obtain ⟨k, line, hline, hnumber, hfault⟩ := Listing.exists_of_readLines hread
  obtain rfl : number = k + 1 := by rw [Nat.add_comm]; exact hnumber
  refine ⟨k, line, fault, rfl, hline, ?_⟩
  rw [isLine_listing]
  have hplain := lineFeed_not_mem_lines (List.mem_of_getElem? hline)
  exact ⟨fun hmessage hcites => hcites.broken hmessage,
    (Listing.unbroken_or_cites hplain hfault).resolve_right⟩

/-- No name in compiled code, or in code read from a listing, holds a line feed. -/
theorem unbroken_of_load {code : Code} {name : String}
    (hcode : (∃ text, decodeText text = .ok code) ∨ ∃ program, compileSource program = .ok code)
    (h : .load name ∈ code) : Unbroken name := by
  have hsayable : ∀ i ∈ code, i.Sayable := by
    rcases hcode with ⟨text, htext⟩ | ⟨program, hprogram⟩
    · exact Listing.sayable_of_read (of_mapError_ok htext)
    · exact fun i hi => (expressible_of_compileSource hprogram i hi).1
  exact Plain.unbroken (hsayable _ h)

/-- **Reports on one line.** The failure of a run or of reading stored code is reported
in one line, with these exceptions and no others.

1. A run, of any code and from any state of the machine, fails because the code loads a
   name that has no value, and the name holds a line feed.
2. No such name is in code that was compiled or read from a listing.
3. A line of a listing cannot be read because of a word in quotes, as its mnemonic or as
   an operand, and one of the word's escapes is that of a line feed.
4. Bytes that cannot be read are always reported in one line. -/
theorem report_single_line (colour : Bool) (file source : String) :
    (∀ (m : Machine) (n : Nat) (f : Fault), (m.runFor n).2 = some (.failed f) →
      (IsLine (report colour file source (.runtime f)) ↔
        ∀ name, f = .undefinedVariable name → Unbroken name) ∧
        ∀ name, f = .undefinedVariable name → .load name ∈ m.code) ∧
    (∀ code : Code,
      ((∃ text, decodeText text = .ok code) ∨ ∃ program, compileSource program = .ok code) →
      ∀ name, .load name ∈ code → Unbroken name) ∧
    (∀ text e, decodeText text = .error e →
      ∃ k line fault, e = .listing ⟨k + 1, fault⟩ ∧ (lines text.toList)[k]? = some line ∧
        (IsLine (report colour file source (.decode e)) ↔ ¬ fault.CitesLineFeed line)) ∧
    ∀ bytes e, decodeBinary bytes = .error e → IsLine (report colour file source (.decode e)) := by
  refine ⟨fun _ _ _ => isLine_of_runFor, fun _ hcode _ => unbroken_of_load hcode,
    fun _ _ => isLine_of_decodeText, fun bytes e h => ?_⟩
  obtain ⟨fault, -, rfl⟩ := of_mapError_error h
  exact isLine_wire fault

/-- A line of input with a carriage return inside, a word in quotes without a line feed,
and bytes that end too early. -/
theorem report_single_line_foreignTexts :
    let run := (Machine.start [.read .int] {} (utf8Bytes "1\r2\r\n")).runFor 1
    run.2 = some (.failed (.invalidInput .int "1\r2")) ∧
      IsLine (report false "a.pbc" "" (.runtime (.invalidInput .int "1\r2"))) ∧
      decodeText "\npush I \"7\"" = .error (.listing ⟨2, .badOperand "push" "7"⟩) ∧
      IsLine (report false "a.pbc" "" (.decode (.listing ⟨2, .badOperand "push" "7"⟩))) ∧
      decodeBinary [1, 2] = .error (.wire .endOfBytes) ∧
      IsLine (report false "a.pbc" "" (.decode (.wire .endOfBytes))) := by
  obtain ⟨hruns, -, hlistings, hbytes⟩ := report_single_line false "a.pbc" ""
  have hrun : ((Machine.start [.read .int] {} (utf8Bytes "1\r2\r\n")).runFor 1).2 =
      some (.failed (.invalidInput .int "1\r2")) := by decide +kernel
  have htext : decodeText "\npush I \"7\"" = .error (.listing ⟨2, .badOperand "push" "7"⟩) := by
    rfl
  have hwire : decodeBinary [1, 2] = .error (.wire .endOfBytes) := by
    rfl
  refine ⟨hrun, (hruns _ _ _ hrun).1.mpr (by rintro _ ⟨⟩), htext, ?_, hwire, hbytes _ _ hwire⟩
  obtain ⟨k, line, fault, hfault, -, hline⟩ := hlistings _ _ htext
  cases hfault
  refine hline.mpr ?_
  rintro ⟨words, text, -, -, hbroken, hcited | ⟨mnemonic, hcited⟩⟩
  · cases hcited
  · cases hcited
    exact hbroken (by decide +kernel)

/-- A mnemonic in quotes is cited with its escape resolved, and so is a name that was not
written in a listing. -/
theorem report_broken :
    decodeText "\"a\\nb\"" = .error (.listing ⟨1, .unknownMnemonic "a\nb"⟩) ∧
      ¬ IsLine (report false "a.pbc" "" (.decode (.listing ⟨1, .unknownMnemonic "a\nb"⟩))) ∧
      ((Machine.start [.load "a\nb"] {} []).runFor 1).2 =
        some (.failed (.undefinedVariable "a\nb")) ∧
      ¬ IsLine (report false "a.pbc" "" (.runtime (.undefinedVariable "a\nb"))) := by
  refine ⟨?_, ?_, by decide +kernel, ?_⟩
  · rfl
  · rw [isLine_listing]
    decide +kernel
  · rw [isLine_runtime]
    decide +kernel

end Failure

end Cairn
