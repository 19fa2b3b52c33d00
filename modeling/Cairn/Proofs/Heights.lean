import Cairn.Proofs.Execution

/-!
# Cairn — how high the stack is

An instruction takes a fixed number of values off the stack and puts a fixed
number on it, whatever the values are. So the height of the stack in front of
each instruction can be found without running the code, if all jumps to a label
agree on the height there. `Flows` says that they do: it goes through the code
once, from its beginning to its end, with one height for each label. A machine
that executes such code has, at each instruction, the height that was found.

## Main definitions

* `Flows` — the code can be given heights, none of them above a bound.

## Main statements

* `Machine.execute_shifts` — what an instruction does to the height.
* `Flows.start_unique`     — the height at the end determines the one at the beginning.
* `Machine.runFor_level`   — a run has the heights that were found.
-/

namespace Cairn

namespace Instruction

/-- How many values an instruction takes off the stack. -/
def pops : Instruction → Nat
  | .pop => 1
  | .save _ => 1
  | .fjmp _ => 1
  | .print count => count.toNat
  | .unary _ => 1
  | .binary _ => 2
  | _ => 0

/-- How many values it puts on the stack then. -/
def pushes : Instruction → Nat
  | .push _ => 1
  | .load _ => 1
  | .read _ => 1
  | .unary _ => 1
  | .binary _ => 1
  | _ => 0

/-- Where to go on behind an instruction, if the next one is at `next`. -/
def LeadsTo (code : Code) (next : Nat) : Instruction → Nat → Prop
  | .jmp id, dest => ∃ k, code.labelIndex? id = some k ∧ dest = k + 1
  | .fjmp id, dest => dest = next ∨ ∃ k, code.labelIndex? id = some k ∧ dest = k + 1
  | _, dest => dest = next

end Instruction

-- ---------------------------------------------------------------------------
-- Heights and actions
-- ---------------------------------------------------------------------------

namespace Machine

/-- Where there are as many values, the action replaces `pops` of them by `pushes`
others. It overflows the stack only if there is no room for these. -/
def Shifts {α : Type} (pops pushes : Nat) (x : Action α) (R : Code → α → Prop) : Prop :=
  ∀ m : Machine, pops ≤ m.stack.depth → m.stack.depth ≤ m.stack.limit →
    wp x
      (fun a n => R m.code a ∧ n.code = m.code ∧ n.stack.limit = m.stack.limit ∧
        n.stack.depth + pops = m.stack.depth + pushes ∧ n.stack.depth ≤ n.stack.limit)
      (fun f _ => ∀ limit, f = .stackOverflow limit →
        m.stack.limit + pops < m.stack.depth + pushes) m

namespace Shifts

variable {α β : Type} {p q r : Nat} {R : Code → α → Prop} {S : Code → β → Prop}

theorem pure {a : α} (ha : ∀ code, R code a) : Shifts 0 0 (Pure.pure a) R :=
  fun m _ hle => ⟨ha m.code, rfl, rfl, rfl, hle⟩

theorem throw {f : Fault} (hf : f.isLimit = false) :
    Shifts p q (MonadExcept.throw f : Action α) R := by
  rintro m - - limit rfl
  cases hf

/-- First values are taken off, then the rest is done. -/
theorem bind {t : Nat} {x : Action α} {g : α → Action β} (hx : Shifts p 0 x R)
    (hg : ∀ a, Shifts q r (g a) S) (ht : p + q = t) : Shifts t r (x >>= g) S := by
  intro m hm hle
  rw [wp_bind]
  refine (hx m (by omega) hle).mono ?_ fun f n hf limit hlimit => ?_
  · rintro a n ⟨-, hcode, hlimit, hdepth, hn⟩
    refine (hg a n (by omega) hn).mono ?_ fun f n' hf limit' hlimit' => ?_
    · rintro b n' ⟨hb, hcode', hlimit', hdepth', hn'⟩
      exact ⟨hcode ▸ hb, hcode'.trans hcode, hlimit'.trans hlimit, by omega, hn'⟩
    · have hroom := hf limit' hlimit'
      omega
  · have hroom := hf limit hlimit
    omega

/-- Values are put on the stack last. -/
theorem andThen {x : Action α} {b : β} (hx : Shifts p q x R) (hb : ∀ code, S code b) :
    Shifts p q (x >>= fun _ => Pure.pure b) S := by
  intro m hm hle
  rw [wp_bind]
  refine (hx m hm hle).mono ?_ fun _ _ hf => hf
  rintro a n ⟨-, hn⟩
  exact ⟨hb m.code, hn⟩

theorem get {k : Machine → Action α} (hk : ∀ m, Shifts p q (k m) R) :
    Shifts p q (MonadState.get >>= k) R := by
  intro m hm hle
  rw [wp_bind, wp_get]
  exact hk m m hm hle

theorem push (v : Value) : Shifts 0 1 (Machine.push v) fun _ _ => True := by
  intro m _ hle
  rw [wp_push]
  by_cases hfull : m.stack.limit ≤ m.stack.depth
  · have hpush : m.stack.push v = .error (.stackOverflow m.stack.limit) := if_pos hfull
    rw [hpush]
    intro limit _
    omega
  · have hpush : m.stack.push v = .ok { m.stack with items := v :: m.stack.items } := if_neg hfull
    rw [hpush]
    have hroom : m.stack.depth + 1 ≤ m.stack.limit := by omega
    exact ⟨trivial, rfl, rfl, rfl, hroom⟩

theorem pop : Shifts 1 0 Machine.pop fun _ _ => True := by
  intro m hm hle
  rw [wp_pop, Stack.pop]
  rw [Stack.depth] at hm hle
  cases hitems : m.stack.items with
  | nil =>
    rw [hitems] at hm
    cases hm
  | cons v rest =>
    rw [hitems] at hle
    refine ⟨trivial, rfl, rfl, ?_, Nat.le_of_succ_le hle⟩
    show rest.length + 1 = m.stack.items.length
    rw [hitems, List.length_cons]

theorem popMany (n : Nat) : Shifts n 0 (Machine.popMany n) fun _ _ => True := by
  intro m hm hle
  have hpop : m.stack.popMany n = .ok ((m.stack.items.take n).reverse,
      { m.stack with items := m.stack.items.drop n }) := if_neg (Nat.not_lt.mpr hm)
  have hdepth : (m.stack.items.drop n).length = m.stack.depth - n := List.length_drop
  rw [wp_popMany, hpop]
  refine ⟨trivial, rfl, rfl, ?_, ?_⟩
  · show (m.stack.items.drop n).length + n = _
    omega
  · show (m.stack.items.drop n).length ≤ m.stack.limit
    omega

theorem write (text : String) : Shifts 0 0 (Machine.write text) fun _ _ => True :=
  fun _ _ hle => ⟨trivial, rfl, rfl, rfl, hle⟩

theorem resolve (id : UInt32) : Shifts 0 0 (Machine.resolve id)
    fun code dest => ∃ k, code.labelIndex? id = some k ∧ dest = k + 1 := by
  intro m _ hle
  rw [wp_resolve]
  cases hindex : Code.labelIndex? m.code id with
  | some k => exact ⟨⟨k, hindex, rfl⟩, rfl, rfl, rfl, hle⟩
  | none =>
    rintro limit ⟨⟩

theorem readLine : Shifts 0 0 Machine.readLine fun _ _ => True := by
  intro m _ hle
  rw [readLine_eq, wp_bind, wp_get]
  split
  · rintro limit ⟨⟩
  · rw [wp_bind, wp_set]
    cases ofUtf8? (takeLine m.input).1 with
    | some text => exact ⟨trivial, rfl, rfl, rfl, hle⟩
    | none => rintro limit ⟨⟩

theorem readValue (tag : Tag) : Shifts 0 0 (Machine.readValue tag) fun _ _ => True := by
  have hvalue : Shifts 0 0 (Machine.readLine >>= lineValue tag) fun _ _ => True := by
    refine bind (q := 0) readLine (fun line => ?_) rfl
    rw [lineValue]
    cases Value.ofLine? tag line with
    | some v => exact pure fun _ => trivial
    | none => exact throw rfl
  rw [readValue_eq]
  refine get fun m => ?_
  split
  · exact bind (write _) (fun _ => hvalue) rfl
  · exact hvalue

theorem pushResult (next : Nat) {result : Except Fault Value}
    (hresult : ∀ f, result = .error f → f.isLimit = false) :
    Shifts 0 1 (Machine.pushResult next result) fun _ dest => dest = next := by
  cases result with
  | ok v => exact andThen (push v) fun _ => rfl
  | error f => exact throw (hresult f rfl)

end Shifts

/-- **What an instruction does to the height of the stack**, and where it leads. -/
theorem execute_shifts (next : Nat) (i : Instruction) :
    Shifts i.pops i.pushes (execute next i) fun code dest => i.LeadsTo code next dest := by
  cases i with
  | push v => exact .andThen (.push v) fun _ => rfl
  | pop => exact .andThen .pop fun _ => rfl
  | load x =>
    refine .get fun m => ?_
    cases m.store.find? x with
    | some v => exact .andThen (.push v) fun _ => rfl
    | none => exact .throw rfl
  | save x =>
    refine .bind (q := 0) .pop (fun v => ?_) rfl
    exact fun m _ hle => ⟨rfl, rfl, rfl, rfl, hle⟩
  | label id => exact .pure fun _ => rfl
  | jmp id => exact .resolve id
  | fjmp id =>
    refine .bind (q := 0) .pop (fun v => ?_) rfl
    split
    · exact .pure fun _ => .inl rfl
    · exact fun m hm hle => (Shifts.resolve id m hm hle).mono (fun _ _ h => ⟨.inr h.1, h.2⟩)
        fun _ _ hf => hf
    · exact .throw rfl
  | print count =>
    exact .bind (.popMany _) (fun _ => .andThen (.write _) fun _ => rfl) (Nat.add_zero _)
  | read tag => exact .bind (.readValue tag) (fun v => .andThen (.push v) fun _ => rfl) rfl
  | unary op =>
    rw [execute_unary]
    exact .bind .pop (fun v => .pushResult next fun f => unary_not_limit) rfl
  | binary op =>
    rw [execute_binary]
    exact .bind .pop
      (fun b => .bind .pop (fun a => .pushResult next fun f => binary_not_limit) rfl) rfl

end Machine

-- ---------------------------------------------------------------------------
-- Heights of code
-- ---------------------------------------------------------------------------

/-- Instructions that lead to the next one, and do with the stack what they do
whatever stands in them. -/
def Instruction.isStraight : Instruction → Bool
  | .label _ => false
  | .jmp _ => false
  | .fjmp _ => false
  | .print _ => false
  | _ => true

/-- With the heights `L` at the labels, the code leads from one height to another, and
never above `b`. Behind a jump the code goes on at whatever height it may have
there. -/
inductive Flows (L : UInt32 → Nat) (b : Nat) : Nat → Code → Nat → Prop
  | nil {d : Nat} (hd : d ≤ b) : Flows L b d [] d
  | straight {d d' e : Nat} {i : Instruction} {c : Code} (hi : i.isStraight)
    (hpops : d = d' + i.pops) (hd : d ≤ b) (hrest : Flows L b (d' + i.pushes) c e) :
    Flows L b d (i :: c) e
  | print {d d' e n : Nat} {c : Code} (hpops : d = d' + n) (hd : d ≤ b)
    (hrest : Flows L b d' c e) : Flows L b d (.print (.ofNat n) :: c) e
  | label {d e : Nat} {id : UInt32} {c : Code} (hid : L id = d) (hd : d ≤ b)
    (hrest : Flows L b d c e) : Flows L b d (.label id :: c) e
  | jmp {d d' e : Nat} {id : UInt32} {c : Code} (hid : L id = d) (hd : d ≤ b)
    (hrest : Flows L b d' c e) : Flows L b d (.jmp id :: c) e
  | fjmp {d d' e : Nat} {id : UInt32} {c : Code} (hpops : d = d' + 1) (hid : L id = d')
    (hd : d ≤ b) (hrest : Flows L b d' c e) : Flows L b d (.fjmp id :: c) e

namespace Flows

variable {L : UInt32 → Nat} {b d d' e : Nat} {c code : Code}

theorem le_bound (h : Flows L b d c e) : d ≤ b := by
  cases h with
  | _ => assumption

theorem end_le_bound (h : Flows L b d c e) : e ≤ b := by
  induction h with
  | nil hd => exact hd
  | _ => assumption

/-- An instruction that leaves `d'` values where they are. -/
theorem one (d' : Nat) {i : Instruction} (hi : i.isStraight) (hd : d = d' + i.pops)
    (he : e = d' + i.pushes) (hdb : d ≤ b) (heb : e ≤ b) : Flows L b d [i] e :=
  .straight hi hd hdb (he ▸ .nil heb)

/-- One piece of code behind another. -/
theorem append {c' : Code} (h : Flows L b d c d') (h' : Flows L b d' c' e) :
    Flows L b d (c ++ c') e := by
  induction h with
  | nil _ => exact h'
  | straight hi hpops hd _ ih => exact .straight hi hpops hd (ih h')
  | print hpops hd _ ih => exact .print hpops hd (ih h')
  | label hid hd _ ih => exact .label hid hd (ih h')
  | jmp hid hd _ ih => exact .jmp hid hd (ih h')
  | fjmp hpops hid hd _ ih => exact .fjmp hpops hid hd (ih h')

/-- **The height at the end determines the one at the beginning**, as far as
numbers of values can be told apart. -/
theorem start_unique (h : Flows L b d c e) (h' : Flows L b d' c e) :
    d % UInt64.size = d' % UInt64.size := by
  induction h generalizing d' with
  | nil _ =>
    cases h'
    rfl
  | straight hi hpops hd _ ih =>
    cases h' with
    | straight _ hpops' _ hrest =>
      have hmod : _ % 2 ^ 64 = _ % 2 ^ 64 := ih hrest
      show _ % 2 ^ 64 = _ % 2 ^ 64
      omega
    | _ => cases hi
  | @print d₁ d₂ e n c hpops hd _ ih =>
    generalize hcount : UInt64.ofNat n = count at h'
    cases h' with
    | straight hi => cases hi
    | @print _ _ _ n' _ hpops' _ hrest =>
      have hmod : _ % 2 ^ 64 = _ % 2 ^ 64 := ih hrest
      have hn : n % 2 ^ 64 = n' % 2 ^ 64 := by
        have htoNat := congrArg UInt64.toNat hcount
        rwa [UInt64.toNat_ofNat', UInt64.toNat_ofNat'] at htoNat
      show _ % 2 ^ 64 = _ % 2 ^ 64
      omega
  | label hid hd _ ih =>
    cases h' with
    | straight hi => cases hi
    | label hid' => rw [← hid, hid']
  | jmp hid hd _ ih =>
    cases h' with
    | straight hi => cases hi
    | jmp hid' => rw [← hid, hid']
  | fjmp hpops hid hd _ ih =>
    cases h' with
    | straight hi => cases hi
    | fjmp hpops' hid' => rw [hpops, ← hid, hid', hpops']

/-- The code from some place on, and the height there. -/
theorem drop (h : Flows L b d code e) {k : Nat} (hk : k ≤ code.length) :
    ∃ d', Flows L b d' (code.drop k) e := by
  induction k with
  | zero => exact ⟨d, h⟩
  | succ k ih =>
    obtain ⟨d', hd'⟩ := ih (Nat.le_of_succ_le hk)
    rw [List.drop_eq_getElem_cons hk] at hd'
    generalize code[k] = i at hd'
    cases hd' with
    | _ => exact ⟨_, by assumption⟩

/-- Behind a label the code goes on at the height of that label. -/
theorem of_label (h : Flows L b d code e) {k : Nat} {id : UInt32}
    (hk : code[k]? = some (.label id)) : Flows L b (L id) (code.drop (k + 1)) e := by
  obtain ⟨hlt, hget⟩ := List.getElem?_eq_some_iff.mp hk
  obtain ⟨d', hd'⟩ := h.drop (Nat.le_of_lt hlt)
  rw [List.drop_eq_getElem_cons hlt, hget] at hd'
  cases hd' with
  | straight hi => cases hi
  | label hid _ hrest =>
    rw [hid]
    exact hrest

theorem of_labelIndex? (h : Flows L b d code e) {k : Nat} {id : UInt32}
    (hk : code.labelIndex? id = some k) : Flows L b (L id) (code.drop (k + 1)) e := by
  rw [Code.labelIndex?, List.findIdx?_eq_some_iff_getElem] at hk
  obtain ⟨hlt, heq, -⟩ := hk
  exact h.of_label (List.getElem?_eq_some_iff.mpr ⟨hlt, eq_of_beq heq⟩)

/-- **One instruction**: there are as many values as it takes, and the code goes on at
the height that it leaves, wherever it leads. -/
theorem of_instruction (hcode : Flows L b 0 code 0) {ip : Nat}
    (h : Flows L b d (code.drop ip) 0) {i : Instruction} (hi : code[ip]? = some i)
    (hd : d < UInt64.size) :
    i.pops ≤ d ∧ ∀ d' dest, d' + i.pops = d + i.pushes → i.LeadsTo code (ip + 1) dest →
      Flows L b d' (code.drop dest) 0 := by
  obtain ⟨hlt, rfl⟩ := List.getElem?_eq_some_iff.mp hi
  rw [List.drop_eq_getElem_cons hlt] at h
  generalize code[ip] = i at h
  cases h with
  | @straight _ d₁ _ _ _ hstraight hpops _ hrest =>
    refine ⟨by omega, fun d' dest hd' hto => ?_⟩
    have hnext : dest = ip + 1 := by
      cases i with
      | label => cases hstraight
      | jmp => cases hstraight
      | fjmp => cases hstraight
      | _ => exact hto
    have hheight : d' = d₁ + i.pushes := by omega
    rw [hnext, hheight]
    exact hrest
  | @print _ d₁ _ n _ hpops _ hrest =>
    -- the values to print are on the stack, so they can be counted
    have hcount : (UInt64.ofNat n).toNat = n := UInt64.toNat_ofNat_of_lt' (by omega)
    refine ⟨?_, fun d' dest hd' hto => ?_⟩
    · show (UInt64.ofNat n).toNat ≤ d
      omega
    · have hleft : d' + (UInt64.ofNat n).toNat = d := hd'
      have hheight : d' = d₁ := by omega
      rw [hto, hheight]
      exact hrest
  | label hid _ hrest =>
    refine ⟨Nat.zero_le _, fun d' dest hd' hto => ?_⟩
    have hheight : d' = d := hd'
    rw [hto, hheight]
    exact hrest
  | jmp hid _ hrest =>
    refine ⟨Nat.zero_le _, fun d' dest hd' hto => ?_⟩
    have hheight : d' = d := hd'
    obtain ⟨k, hk, rfl⟩ := hto
    rw [hheight, ← hid]
    exact hcode.of_labelIndex? hk
  | fjmp hpops hid _ hrest =>
    refine ⟨hpops ▸ Nat.le_add_left _ _, fun d' dest hd' hto => ?_⟩
    have hheight : d' + 1 = d := hd'
    obtain rfl := Nat.succ.inj (hheight.trans hpops)
    rcases hto with rfl | ⟨k, hk, rfl⟩
    · exact hrest
    · rw [← hid]
      exact hcode.of_labelIndex? hk

end Flows

-- ---------------------------------------------------------------------------
-- Machines at their height
-- ---------------------------------------------------------------------------

namespace Machine

variable {L : UInt32 → Nat} {b : Nat} {code : Code} {m : Machine}

/-- The stack of the machine is as high as its place in the code says. -/
structure Level (L : UInt32 → Nat) (b : Nat) (code : Code) (m : Machine) : Prop where
  code_eq : m.code = code
  rest : Flows L b m.stack.depth (code.drop m.ip) 0
  depth_le : m.stack.depth ≤ m.stack.limit
  limit_lt : m.stack.limit < UInt64.size

theorem level_start {options : Options} {input : List UInt8} (hcode : Flows L b 0 code 0)
    (hmax : options.maxStack < UInt64.size) : (start code options input).Level L b code :=
  ⟨rfl, hcode, Nat.zero_le _, hmax⟩

/-- An instruction that puts values on the stack leads to the next one. -/
theorem leadsTo_of_pushes {next : Nat} {i : Instruction} (h : i.pushes ≠ 0) :
    i.LeadsTo code next next := by
  cases i with
  | jmp => exact absurd rfl h
  | fjmp => exact absurd rfl h
  | _ => rfl

/-- **A step keeps the machine at its height**, and overflows only a stack that is
smaller than the bound. -/
theorem step_level (hcode : Flows L b 0 code 0) (h : m.Level L b code) :
    (∀ {n}, m.step = (n, .executed) → n.Level L b code ∧ n.stack.limit = m.stack.limit) ∧
      ∀ {n limit}, m.step = (n, .failed (.stackOverflow limit)) → m.stack.limit < b := by
  obtain ⟨rfl, hrest, hle, hlt⟩ := h
  have hdepth := Nat.lt_of_le_of_lt hle hlt
  have hcases := step_cases m
  constructor
  · intro n hstep
    rw [hstep] at hcases
    cases hcases with
    | @executed i next n hi hlimit hrun =>
      obtain ⟨hpops, hnext⟩ := hcode.of_instruction hrest hi hdepth
      have hcounted : i.pops ≤ ({ m with steps := m.steps + 1 } : Machine).stack.depth := hpops
      obtain ⟨hto, hsame, hlimit', hheight, hroom⟩ :=
        (execute_shifts (m.ip + 1) i _ hcounted hle).of_ok hrun
      have hlt' : n.stack.limit < UInt64.size := by
        rw [hlimit']
        exact hlt
      exact ⟨⟨hsame, hnext _ _ hheight hto, hroom, hlt'⟩, hlimit'⟩
  · intro n limit hstep
    rw [hstep] at hcases
    cases hcases with
    | @failed i f n hi hlimit hrun =>
      obtain ⟨hpops, hnext⟩ := hcode.of_instruction hrest hi hdepth
      have hcounted : i.pops ≤ ({ m with steps := m.steps + 1 } : Machine).stack.depth := hpops
      have hfull : m.stack.limit + i.pops < m.stack.depth + i.pushes :=
        (execute_shifts (m.ip + 1) i _ hcounted hle).of_error hrun limit rfl
      -- the values that did not fit are counted behind the instruction, where the code goes on
      have hflows := hnext (m.stack.depth + i.pushes - i.pops) (m.ip + 1) (by omega)
        (leadsTo_of_pushes (by omega))
      have hbound := hflows.le_bound
      omega

/-- **A run keeps the machine at its height** as long as no step fails, and overflows
only a stack that is smaller than the bound. -/
theorem runFor_level (hcode : Flows L b 0 code 0) (h : m.Level L b code) (k : Nat) :
    ((∀ f, (m.runFor k).2 ≠ some (.failed f)) → (m.runFor k).1.Level L b code) ∧
      ∀ limit, (m.runFor k).2 = some (.failed (.stackOverflow limit)) → m.stack.limit < b := by
  induction k generalizing m with
  | zero => exact ⟨fun _ => h, fun limit hf => by cases hf⟩
  | succ k ih =>
    obtain ⟨hexecuted, hoverflow⟩ := step_level hcode h
    rcases hstep : m.step with ⟨n, result⟩
    cases result with
    | executed =>
      rw [runFor_of_executed hstep]
      obtain ⟨hn, hlimit⟩ := hexecuted hstep
      rw [← hlimit]
      exact ih hn
    | halted =>
      rw [runFor_of_halted hstep, (step_halted hstep).1]
      exact ⟨fun _ => h, fun limit hf => by cases hf⟩
    | failed f =>
      rw [runFor_of_failed hstep]
      refine ⟨fun hnot => absurd rfl (hnot f), fun limit hf => ?_⟩
      cases hf
      exact hoverflow hstep

/-- Where the code may go on at height zero, the stack is empty. -/
theorem Level.depth_eq_zero (h : m.Level L b code) (hrest : Flows L b 0 (code.drop m.ip) 0) :
    m.stack.depth = 0 := by
  have hmod : m.stack.depth % 2 ^ 64 = 0 % 2 ^ 64 := h.rest.start_unique hrest
  have hle := h.depth_le
  have hlt := h.limit_lt
  have hsize : UInt64.size = 2 ^ 64 := rfl
  omega

end Machine

end Cairn
