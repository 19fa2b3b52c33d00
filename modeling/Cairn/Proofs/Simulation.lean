import Cairn.Proofs.Execution

/-!
# Cairn — the code of an expression computes its value

A machine at the code of an expression that checks does what the expression
means: it arrives behind that code with the value on top of an otherwise
unchanged stack and with the effects done, or it faults as evaluating does.

## Main statements

* `BinaryOp.holdsAt` — the instructions of an operator compute its result.
* `Expr.holdsAt`     — the code of an expression computes its value.
-/

namespace Cairn

-- ---------------------------------------------------------------------------
-- Code inside code
-- ---------------------------------------------------------------------------

/-- A piece of code stands at an address of the code. -/
def CodeAt (code : Code) : Nat → Code → Prop
  | _, [] => True
  | ip, i :: rest => code[ip]? = some i ∧ CodeAt code (ip + 1) rest

namespace CodeAt

variable {code : Code} {ip : Nat}

@[simp] theorem nil : CodeAt code ip [] ↔ True := Iff.rfl

@[simp] theorem cons {i : Instruction} {c : Code} :
    CodeAt code ip (i :: c) ↔ code[ip]? = some i ∧ CodeAt code (ip + 1) c := Iff.rfl

@[simp] theorem append {c d : Code} :
    CodeAt code ip (c ++ d) ↔ CodeAt code ip c ∧ CodeAt code (ip + c.length) d := by
  induction c generalizing ip with
  | nil => simp
  | cons i c ih =>
    rw [List.cons_append, cons, cons, ih, and_assoc, List.length_cons, Nat.add_assoc,
      Nat.add_comm 1]

theorem cast {ip' : Nat} {c : Code} (h : CodeAt code ip c) (hip : ip = ip') : CodeAt code ip' c :=
  hip ▸ h

theorem behind (front c : Code) : CodeAt (front ++ c) front.length c := by
  induction c generalizing front with
  | nil => trivial
  | cons i c ih =>
    refine ⟨by simp, ?_⟩
    have h := ih (front ++ [i])
    rwa [List.append_assoc, List.length_append] at h

theorem self (code : Code) : CodeAt code 0 code :=
  behind [] code

end CodeAt

-- ---------------------------------------------------------------------------
-- Operators
-- ---------------------------------------------------------------------------

theorem order_eq {op : Instruction.Binary} {symbol : String} {onInts : Int64 → Int64 → Bool}
    {onDoubles : Double → Double → Bool} {a b : Value} {c : Bool}
    (h : compareNumbers symbol onInts onDoubles a b = .ok c) :
    op.order onInts onDoubles a b = .ok (.bool c) := by
  cases a <;> cases b <;> cases h <;> rfl

theorem equal_eq {symbol : String} {a b : Value} {c : Bool}
    (h : equalValues symbol a b = .ok c) : Instruction.Binary.eq.apply a b = .ok (.bool c) := by
  cases a <;> cases b <;> cases h <;> rfl

/-- Arithmetic by instruction: conversions and tag make it the one of the types. -/
theorem Arithmetic.apply_eq {op : Arithmetic} {mnemonic symbol : String} {left right : Ty}
    {a b : Value} (h : Operands left right a b) :
    op.apply mnemonic (if resultTy left right = .float then .float else .int)
      ((Widening.ofTypes left right).convertLeft a)
      ((Widening.ofTypes left right).convertRight b) = op.eval symbol left right a b := by
  cases h with
  | ints i j => rfl
  | left i hb => cases b <;> cases hb <;> rfl
  | right ha j => cases a <;> cases ha <;> rfl
  | floats ha hb => cases a <;> cases ha <;> cases b <;> cases hb <;> rfl

/-- The instruction of an operator other than `!=` computes its result. -/
theorem BinaryOp.apply_eq {op : BinaryOp} (hop : op ≠ .ne) {left right ty : Ty} {wd : Widening}
    (hrule : Rule op left right ty wd) {a b : Value} (ha : a.Fits left) (hb : b.Fits right) :
    ∃ i : Instruction.Binary, op.instructions ty = [.binary i] ∧
      i.apply (wd.convertLeft a) (wd.convertRight b) = op.eval left right a b := by
  cases hrule with
  | arithmetic kind hkind hleft hright =>
    have hops := Operands.of_fits hleft hright ha hb
    subst hkind
    cases kind <;> exact ⟨_, rfl, Arithmetic.apply_eq hops⟩
  | mod =>
    obtain ⟨i, rfl⟩ := Value.fits_int ha
    obtain ⟨j, rfl⟩ := Value.fits_int hb
    exact ⟨_, rfl, rfl⟩
  | concat =>
    obtain ⟨s, rfl⟩ := Value.fits_string ha
    obtain ⟨t, rfl⟩ := Value.fits_string hb
    exact ⟨_, rfl, rfl⟩
  | order hlt hleft hright =>
    rcases hlt with rfl | rfl
    all_goals
      obtain ⟨c, hc⟩ := order_sound hleft hright ha hb _
      exact ⟨_, rfl, by rw [Instruction.Binary.apply, order_eq hc, eval, hc]; rfl⟩
  | equality heq h =>
    obtain rfl := heq.resolve_right hop
    obtain ⟨c, hc⟩ := equality_sound h ha hb
    exact ⟨_, rfl, by rw [equal_eq hc, eval, hc]; rfl⟩
  | connective hand =>
    obtain ⟨p, rfl⟩ := Value.fits_bool ha
    obtain ⟨q, rfl⟩ := Value.fits_bool hb
    rcases hand with rfl | rfl <;> exact ⟨_, rfl, rfl⟩

theorem BinaryOp.comparable_of_ne {left right ty : Ty} {wd : Widening}
    (hrule : Rule .ne left right ty wd) :
    left.Comparable right ∧ wd = .ofTypes left right := by
  cases hrule with
  | arithmetic kind hop => cases kind <;> cases hop
  | order hop => rcases hop with hop | hop <;> cases hop
  | equality _ h => exact ⟨h, rfl⟩
  | connective hop => rcases hop with hop | hop <;> cases hop

theorem UnaryOp.apply_eq {op : UnaryOp} {v u : Value} (h : op.eval v = .ok u) :
    ∃ i : Instruction.Unary, op.instruction = .unary i ∧ i.apply v = .ok u := by
  cases op <;> cases v <;> cases h <;> exact ⟨_, rfl, rfl⟩

-- ---------------------------------------------------------------------------
-- Expressions
-- ---------------------------------------------------------------------------

open Machine

section

variable {Γ : Symbols} {P : Machine → Prop} {code : Code} {options : Options} {ip : Nat}
  {items : List Value} {w : World}

theorem Machine.HoldsAt.cast {ip' : Nat} (h : HoldsAt code options P ip items w)
    (hip : ip = ip') : HoldsAt code options P ip' items w :=
  hip ▸ h

/-- The instructions of a binary operator compute its result. -/
theorem BinaryOp.holdsAt (hP : Precedes Γ P P) {op : BinaryOp} {left right ty : Ty}
    {wd : Widening} (hrule : Rule op left right ty wd) {a b : Value} (ha : a.Fits left)
    (hb : b.Fits right) (hcode : CodeAt code ip (op.instructions ty)) (hw : w.Typed Γ)
    (h : wp (Effect.ofExcept (op.eval left right a b))
      (fun v w' => HoldsAt code options P (ip + (op.instructions ty).length) (v :: items) w')
      (HoldsOnFault P) w) :
    HoldsAt code options P ip (wd.convertRight b :: wd.convertLeft a :: items) w := by
  by_cases hop : op = .ne
  · -- two instructions: compare, then negate
    subst hop
    obtain ⟨hcomp, rfl⟩ := comparable_of_ne hrule
    obtain ⟨c, hc⟩ := equality_sound hcomp ha hb
    have hne : BinaryOp.ne.eval left right a b = .ok (.bool !c) := by
      rw [eval, hc]
      rfl
    rw [hne] at h
    obtain ⟨heq, hnot, -⟩ := hcode
    exact hP.binary hw heq (equal_eq hc) (hP.unary hw hnot rfl h)
  · obtain ⟨i, hinstr, happly⟩ := apply_eq hop hrule ha hb
    rw [hinstr] at hcode h
    rcases eval_sound hrule ha hb with ⟨v, hv, -⟩ | hzero
    · rw [hv] at h happly
      exact hP.binary hw hcode.1 happly h
    · rw [hzero] at h happly
      exact hP.binaryFault hw hcode.1 happly h

theorem UnaryOp.holdsAt (hP : Precedes Γ P P) {op : UnaryOp} {operand ty : Ty}
    (hcheck : op.check operand = .ok ty) {v : Value} (hv : v.Fits operand)
    (hi : code[ip]? = some op.instruction) (hw : w.Typed Γ)
    (h : wp (Effect.ofExcept (op.eval v))
      (fun u w' => HoldsAt code options P (ip + 1) (u :: items) w') (HoldsOnFault P) w) :
    HoldsAt code options P ip (v :: items) w := by
  obtain ⟨u, hu, -⟩ := eval_sound hcheck hv
  obtain ⟨i, hinstr, happly⟩ := apply_eq hu
  rw [hu] at h
  exact hP.unary hw (hinstr ▸ hi) happly h

/-- An integer operand is converted by an instruction of its own. -/
theorem holdsAt_itof (hP : Precedes Γ P P) {v : Value} (hv : v.Fits .int)
    (hi : code[ip]? = some (.unary .itof)) (hw : w.Typed Γ)
    (h : HoldsAt code options P (ip + 1) (v.widen :: items) w) :
    HoldsAt code options P ip (v :: items) w := by
  obtain ⟨i, rfl⟩ := Value.fits_int hv
  exact hP.unary hw hi rfl h

theorem Widening.holdsAt_onLeft (hP : Precedes Γ P P) {wd : Widening} {v : Value}
    (hv : wd = .left → v.Fits .int) (hcode : CodeAt code ip wd.onLeft) (hw : w.Typed Γ)
    (h : HoldsAt code options P (ip + wd.onLeft.length) (wd.convertLeft v :: items) w) :
    HoldsAt code options P ip (v :: items) w := by
  cases wd with
  | left => exact holdsAt_itof hP (hv rfl) hcode.1 hw h
  | right => exact h
  | none => exact h

theorem Widening.holdsAt_onRight (hP : Precedes Γ P P) {wd : Widening} {v : Value}
    (hv : wd = .right → v.Fits .int) (hcode : CodeAt code ip wd.onRight) (hw : w.Typed Γ)
    (h : HoldsAt code options P (ip + wd.onRight.length) (wd.convertRight v :: items) w) :
    HoldsAt code options P ip (v :: items) w := by
  cases wd with
  | right => exact holdsAt_itof hP (hv rfl) hcode.1 hw h
  | left => exact h
  | none => exact h

/-- Only an integer operand is converted. -/
theorem BinaryOp.int_of_widening {op : BinaryOp} {left right ty : Ty} {wd : Widening}
    (hrule : Rule op left right ty wd) :
    (wd = .left → left = .int) ∧ (wd = .right → right = .int) := by
  have htypes : ∀ left right : Ty, (Widening.ofTypes left right = .left → left = .int) ∧
      (Widening.ofTypes left right = .right → right = .int) := by
    intro left right
    cases left <;> cases right <;> simp [Widening.ofTypes]
  cases hrule with
  | arithmetic => exact htypes left right
  | order => exact htypes left right
  | equality => exact htypes left right
  | mod => simp
  | concat => simp
  | connective => simp

/-- **The code of an expression computes its value**, on top of whatever is on
the stack. -/
theorem Expr.holdsAt (hP : Precedes Γ P P) (hlabels : (Code.labelIds code).Nodup)
    {e : Expr Literal} (he : e.ty Γ ≠ .error) {n : Nat} (hcode : CodeAt code ip (e.code Γ n))
    (hw : w.Typed Γ)
    (h : wp (e.eval Γ)
      (fun v w' => HoldsAt code options P (ip + (e.code Γ n).length) (v :: items) w')
      (HoldsOnFault P) w) :
    HoldsAt code options P ip items w := by
  induction e generalizing ip items w n with
  | literal loc value => exact hP.push hw hcode.1 h
  | name loc x =>
    have hx := find?_of_ty he
    rw [Expr.code, hx] at hcode h
    rw [Expr.eval, wp_bind, wp_get] at h
    cases hv : w.store.find? x with
    | none =>
      rw [hv] at h
      exact hP.loadUnset hw hcode.1 hv h
    | some v =>
      rw [hv] at h
      exact hP.load hw hcode.1 hv h
  | group loc inner ih => exact ih he hcode hw h
  | unary loc op operand ih =>
    have hjudge := judge_of_unary he
    rw [Expr.code, hjudge, Verdict.code_ok] at hcode h
    obtain ⟨hoperand, hop, -⟩ := CodeAt.append.mp hcode
    rw [Expr.eval, wp_bind] at h
    refine ih (operand_of_unary he) hoperand hw ?_
    refine (eval_sound (operand_of_unary he) hw).imp h (fun v w' hv hk => ?_) fun _ _ _ hf => hf
    refine UnaryOp.holdsAt hP (UnaryOp.judge_eq_ok.mp hjudge) hv.1 hop hv.2 ?_
    rwa [List.length_append, List.length_singleton, ← Nat.add_assoc] at hk
  | binary loc op left right ihl ihr =>
    obtain ⟨wd, hjudge⟩ := judge_of_binary he
    obtain ⟨hleft, hright, hcheck⟩ := BinaryOp.judge_eq_ok.mp hjudge
    have hrule := BinaryOp.rule_of_check hleft hcheck
    have hint := BinaryOp.int_of_widening hrule
    simp only [Expr.code, hjudge, Verdict.code_ok] at hcode h
    obtain ⟨⟨⟨hcl, hwl⟩, hcr⟩, hwr, hop⟩ := by
      simpa only [CodeAt.append, List.length_append] using hcode
    rw [Expr.eval, wp_bind] at h
    refine ihl hleft hcl hw ?_
    refine (eval_sound hleft hw).imp h (fun a w₁ ha hk => ?_) fun _ _ _ hf => hf
    refine Widening.holdsAt_onLeft hP (fun hwd => hint.1 hwd ▸ ha.1) hwl ha.2 ?_
    rw [wp_bind] at hk
    refine ihr hright (hcr.cast (by omega)) ha.2 ?_
    refine (eval_sound hright ha.2).imp hk (fun b w₂ hb hk => ?_) fun _ _ _ hf => hf
    refine Widening.holdsAt_onRight hP (fun hwd => hint.2 hwd ▸ hb.1) (hwr.cast (by omega)) hb.2 ?_
    refine BinaryOp.holdsAt hP hrule ha.1 hb.1 (hop.cast (by omega)) hb.2 ?_
    refine hk.mono (fun v w₃ hv => hv.cast ?_) fun _ _ hf => hf
    simp only [List.length_append]
    omega
  | assign loc target value ih =>
    obtain ⟨wd, hjudge⟩ := judge_of_assign he
    obtain ⟨hfound, hvalue, hways⟩ := judgeAssignment_eq_ok.mp hjudge
    simp only [Expr.code, hjudge, Verdict.code_ok] at hcode h
    obtain ⟨hcv, hwr, hsave, hload, -⟩ := by
      simpa only [CodeAt.append, CodeAt.cons, List.length_append] using hcode
    rw [Expr.eval, wp_bind] at h
    refine ih hvalue hcv hw ?_
    refine (eval_sound hvalue hw).imp h (fun v w' hv hk => ?_) fun _ _ _ hf => hf
    have hstored := Value.stored_fits hjudge hv.1
    have hint : wd = .right → v.Fits .int := by
      rintro rfl
      obtain ⟨-, hwd⟩ | ⟨-, hvalue, -⟩ := hways
      · cases hwd
      · exact hvalue ▸ hv.1
    refine Widening.holdsAt_onRight hP hint hwr hv.2 ?_
    rw [← Value.stored_eq hjudge]
    refine hP.save hv.2 hsave ?_
    refine hP.load (hv.2.set hfound hstored) hload (World.find?_set _ _ _) (HoldsAt.cast hk ?_)
    simp only [List.length_append, List.length_cons, List.length_nil]
    omega
  | ternary loc cond onTrue onFalse ihc iht ihf =>
    have hjudge := judge_of_ternary he
    obtain ⟨hcond, htrue, hfalse, -⟩ := judgeBranches_eq_ok.mp hjudge
    simp only [Expr.code, CodeAt.append, List.length_append, List.length_cons,
      List.length_nil, Nat.zero_add, ← Nat.add_assoc] at hcode h
    obtain ⟨⟨⟨⟨⟨hcc, hfjmp⟩, hct⟩, hmid⟩, hcf⟩, hdone⟩ := hcode
    obtain ⟨hjmp, hother, -⟩ := hmid
    rw [Expr.eval, wp_bind] at h
    refine ihc (by rw [hcond]; decide) hcc hw ?_
    refine (eval_sound (by rw [hcond]; decide) hw).imp h (fun v w' hv hk => ?_) fun _ _ _ hf => hf
    rw [hcond] at hv
    obtain ⟨b, rfl⟩ := Value.fits_bool hv.1
    cases b with
    | true =>
      refine hP.fjmpTrue hv.2 hfjmp.1 (iht htrue hct hv.2 ?_)
      refine (eval_sound htrue hv.2).imp hk (fun u w'' hu hk => ?_) fun _ _ _ hf => hf
      exact hP.jmp hu.2 hjmp (Code.labelIndex?_of_nodup hlabels hdone.1) hk
    | false =>
      refine hP.fjmpFalse hv.2 hfjmp.1 (Code.labelIndex?_of_nodup hlabels hother) ?_
      refine ihf hfalse hcf hv.2 ?_
      refine (eval_sound hfalse hv.2).imp hk (fun u w'' hu hk => ?_) fun _ _ _ hf => hf
      exact hP.label hu.2 hdone.1 hk

end

end Cairn
