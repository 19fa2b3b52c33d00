import Cairn.Proofs.Simulation

/-!
# Cairn — the code of a statement does what the statement means

Both directions are about preconditions of the machine. If a statement has an
outcome, then a precondition that holds at that outcome holds in front of its
code (`Stmt.Runs.holdsAt`): the machine gets there. And if a family of
preconditions, one for each number of steps, holds at every outcome that the
statement has, then it holds in front of its code (`Stmt.holdsAt_of_runs`): the
machine gets nowhere else. A statement that runs forever has no outcome; then
the second is what says that the machine runs forever as well.

## Main statements

* `Stmt.Runs.holdsAt`     — the code of a statement reaches its outcome.
* `Stmt.holdsAt_of_runs`  — the code of a statement reaches nothing else.
-/

namespace Cairn

open Machine

-- ---------------------------------------------------------------------------
-- Straight-line statements
-- ---------------------------------------------------------------------------

/-- What is wanted of an outcome. -/
def Finish.Satisfies (K : World → Prop) (F : Fault → World → Prop) : Finish → Prop
  | .done w => K w
  | .fault f w => F f w

section

variable {Γ : Symbols} {P : Machine → Prop} {code : Code} {options : Options} {ip n : Nat}
  {items : List Value} {w : World}

theorem Finish.satisfies_of {α : Type} {x : Effect α} {K : World → Prop}
    {F : Fault → World → Prop} :
    (Finish.of (x w)).Satisfies K F ↔ wp x (fun _ => K) F w := by
  rw [wp]
  cases x w <;> exact Iff.rfl

theorem Ty.exists_zero {ty : Ty} (hty : ty ≠ .error) : ∃ zero, ty.zero? = some zero := by
  cases ty with
  | error => exact absurd rfl hty
  | _ => exact ⟨_, rfl⟩

theorem holdsAt_declareZeros (hP : Precedes Γ P P) {ty : Ty} (hty : ty ≠ .error)
    {names : List Ident} (hnames : ∀ x ∈ names, Γ.find? x.name = some ty)
    (hcode : CodeAt code ip (names.flatMap (zeroCode ty))) (hw : w.Typed Γ)
    (h : HoldsAt code options P (ip + (names.flatMap (zeroCode ty)).length) items
      (declareZeros ty names w)) :
    HoldsAt code options P ip items w := by
  obtain ⟨zero, hzero⟩ := Ty.exists_zero hty
  induction names generalizing ip w with
  | nil => exact h
  | cons x rest ih =>
    have hone : zeroCode ty x = [.push zero, .save x.name] := by rw [zeroCode, hzero]
    simp only [List.flatMap_cons, hone, CodeAt.append, CodeAt.cons, List.length_append,
      List.length_cons, List.length_nil, Nat.zero_add, ← Nat.add_assoc] at hcode h
    obtain ⟨⟨hpush, hsave, -⟩, hrest⟩ := hcode
    rw [declareZeros, hzero] at h
    refine hP.push hw hpush (hP.save hw hsave ?_)
    refine ih (fun y hy => hnames y (List.mem_cons_of_mem _ hy)) hrest ?_ h
    exact hw.set (hnames x List.mem_cons_self) (Value.fits_zero hzero)

theorem holdsAt_readAll (hP : Precedes Γ P P) {names : List Ident}
    (hnames : ∀ x ∈ names, readTag? Γ x ≠ none)
    (hcode : CodeAt code ip (names.flatMap (readCode Γ))) (hw : w.Typed Γ)
    (h : wp (readAll Γ options.prompt names)
      (fun _ => HoldsAt code options P (ip + (names.flatMap (readCode Γ)).length) items)
      (HoldsOnFault P) w) :
    HoldsAt code options P ip items w := by
  induction names generalizing ip w with
  | nil => exact h
  | cons x rest ih =>
    obtain ⟨tag, htag⟩ := Option.ne_none_iff_exists'.mp (hnames x List.mem_cons_self)
    have hone : readCode Γ x = [.read tag, .save x.name] := by rw [readCode, htag]
    simp only [List.flatMap_cons, hone, CodeAt.append, CodeAt.cons, List.length_append,
      List.length_cons, List.length_nil, Nat.zero_add, ← Nat.add_assoc] at hcode h
    obtain ⟨⟨hread, hsave, -⟩, hrest⟩ := hcode
    rw [readAll, htag, wp_bind] at h
    refine hP.read hw hread ?_
    refine (readValue_sound options.prompt tag hw).imp h (fun v w' hv hk => ?_) fun _ _ _ hf => hf
    refine hP.save hv.2 hsave ?_
    refine ih (fun y hy => hnames y (List.mem_cons_of_mem _ hy)) hrest ?_ hk
    exact hv.2.set (Symbols.find?_of_readTag? htag) hv.1

/-- Expressions one after the other leave their values on the stack, the last
one on top. -/
theorem holdsAt_evalAll (hP : Precedes Γ P P) (hlabels : (Code.labelIds code).Nodup)
    {exprs : List (Expr Literal)} (hexprs : ∀ e ∈ exprs, e.ty Γ ≠ .error)
    (hcode : CodeAt code ip (exprsCode Γ n exprs)) (hw : w.Typed Γ)
    (h : wp (evalAll Γ exprs)
      (fun vs => HoldsAt code options P (ip + (exprsCode Γ n exprs).length) (vs.reverse ++ items))
      (HoldsOnFault P) w) :
    HoldsAt code options P ip items w := by
  induction exprs generalizing ip n items w with
  | nil => exact h
  | cons e rest ih =>
    have he := hexprs e List.mem_cons_self
    simp only [exprsCode, CodeAt.append, List.length_append, ← Nat.add_assoc] at hcode h
    rw [evalAll, wp_bind] at h
    refine e.holdsAt hP hlabels he hcode.1 hw ?_
    refine (Expr.eval_sound he hw).imp h (fun v w' hv hk => ?_) fun _ _ _ hf => hf
    refine ih (fun y hy => hexprs y (List.mem_cons_of_mem _ hy)) hcode.2 hv.2 ?_
    refine (wp_bind.mp hk).mono (fun vs w'' hvs => ?_) fun _ _ hf => hf
    rw [wp_pure, List.reverse_cons, List.append_assoc] at hvs
    exact hvs

theorem evalAll_length (Γ : Symbols) (exprs : List (Expr Literal)) (w : World) :
    wp (evalAll Γ exprs) (fun vs _ => vs.length = exprs.length) (fun _ _ => True) w := by
  induction exprs generalizing w with
  | nil => rfl
  | cons e rest ih =>
    rw [evalAll, wp_bind]
    refine wp_of_forall (fun v w' => ?_) fun _ _ => trivial
    refine wp_bind.mpr ((ih w').mono (fun vs w'' hvs => ?_) fun _ _ _ => trivial)
    exact congrArg (· + 1) hvs

/-- Printing takes as many values as there are expressions. There are not too
many to count, since they were all on the stack. -/
theorem holdsAt_writeAll (hP : Precedes Γ P P) (hlabels : (Code.labelIds code).Nodup)
    (hmax : options.maxStack < UInt64.size) {exprs : List (Expr Literal)}
    (hexprs : ∀ e ∈ exprs, e.ty Γ ≠ .error)
    (hcode : CodeAt code ip (exprsCode Γ n exprs))
    (hprint : code[ip + (exprsCode Γ n exprs).length]? = some (.print (.ofNat exprs.length)))
    (hw : w.Typed Γ)
    (h : wp (writeAll Γ exprs)
      (fun _ => HoldsAt code options P (ip + (exprsCode Γ n exprs).length + 1) items)
      (HoldsOnFault P) w) :
    HoldsAt code options P ip items w := by
  refine holdsAt_evalAll hP hlabels hexprs hcode hw ?_
  have hsound := (evalAll_sound hexprs hw).imp (evalAll_length Γ exprs w)
    (fun vs w' hvs hlength => And.intro hvs.2 hlength) fun _ _ hf _ => hf
  refine hsound.imp (wp_bind.mp h) (fun vs w' hvs hk => ?_) fun _ _ _ hf => hf
  intro hlen
  have hcount : (UInt64.ofNat exprs.length).toNat = vs.length := by
    rw [List.length_append, List.length_reverse] at hlen
    rw [UInt64.toNat_ofNat_of_lt' (by omega), hvs.2]
  exact hP.print hvs.1 hprint hcount hk hlen

/-- A condition and the jump behind it. -/
theorem holdsAt_test (hP : Precedes Γ P P) (hlabels : (Code.labelIds code).Nodup)
    {cond : Expr Literal} (hcond : cond.ty Γ = .bool) (hcode : CodeAt code ip (cond.code Γ n))
    {id : UInt32} (hfjmp : code[ip + (cond.code Γ n).length]? = some (.fjmp id)) {target : Nat}
    (htarget : code[target]? = some (.label id)) (hw : w.Typed Γ)
    (h : wp (cond.test Γ)
      (fun b => HoldsAt code options P
        (if b then ip + (cond.code Γ n).length + 1 else target + 1) items)
      (HoldsOnFault P) w) :
    HoldsAt code options P ip items w := by
  have hty : cond.ty Γ ≠ .error := by rw [hcond]; decide
  refine cond.holdsAt hP hlabels hty hcode hw ?_
  refine (Expr.eval_sound hty hw).imp (wp_bind.mp h) (fun v w' hv hk => ?_) fun _ _ _ hf => hf
  rw [hcond] at hv
  obtain ⟨b, rfl⟩ := Value.fits_bool hv.1
  cases b with
  | true => exact hP.fjmpTrue hv.2 hfjmp hk
  | false => exact hP.fjmpFalse hv.2 hfjmp (Code.labelIndex?_of_nodup hlabels htarget) hk

-- ---------------------------------------------------------------------------
-- Where the parts of a statement stand
-- ---------------------------------------------------------------------------

theorem codeAt_ifThen {loc : Location} {cond : Expr Literal} {onTrue : Stmt Literal}
    (h : CodeAt code ip ((Stmt.ifThen loc cond onTrue).code Γ n)) :
    let test := ip + (cond.code Γ (n + 1)).length
    let done := test + 1 + (onTrue.code Γ (n + 1 + cond.labelCount)).length
    CodeAt code ip (cond.code Γ (n + 1)) ∧ code[test]? = some (.fjmp (.ofNat n)) ∧
      CodeAt code (test + 1) (onTrue.code Γ (n + 1 + cond.labelCount)) ∧
      code[done]? = some (.label (.ofNat n)) ∧
      ip + ((Stmt.ifThen loc cond onTrue).code Γ n).length = done + 1 := by
  simp only [Stmt.code, CodeAt.append, CodeAt.cons, List.length_append, List.length_cons,
    List.length_nil, Nat.zero_add, ← Nat.add_assoc] at h ⊢
  obtain ⟨⟨⟨hcond, htest, -⟩, hbody⟩, hdone, -⟩ := h
  exact ⟨hcond, htest, hbody, hdone, trivial⟩

theorem codeAt_ifElse {loc : Location} {cond : Expr Literal} {onTrue onFalse : Stmt Literal}
    (h : CodeAt code ip ((Stmt.ifElse loc cond onTrue onFalse).code Γ n)) :
    let test := ip + (cond.code Γ (n + 2)).length
    let leave := test + 1 + (onTrue.code Γ (n + 2 + cond.labelCount)).length
    let done := leave + 1 + 1 +
      (onFalse.code Γ (n + 2 + cond.labelCount + onTrue.labelCount)).length
    CodeAt code ip (cond.code Γ (n + 2)) ∧ code[test]? = some (.fjmp (.ofNat n)) ∧
      CodeAt code (test + 1) (onTrue.code Γ (n + 2 + cond.labelCount)) ∧
      code[leave]? = some (.jmp (.ofNat (n + 1))) ∧ code[leave + 1]? = some (.label (.ofNat n)) ∧
      CodeAt code (leave + 1 + 1)
        (onFalse.code Γ (n + 2 + cond.labelCount + onTrue.labelCount)) ∧
      code[done]? = some (.label (.ofNat (n + 1))) ∧
      ip + ((Stmt.ifElse loc cond onTrue onFalse).code Γ n).length = done + 1 := by
  simp only [Stmt.code, CodeAt.append, CodeAt.cons, List.length_append, List.length_cons,
    List.length_nil, Nat.zero_add, ← Nat.add_assoc] at h ⊢
  obtain ⟨⟨⟨⟨⟨hcond, htest, -⟩, htrue⟩, hleave, hother, -⟩, hfalse⟩, hdone, -⟩ := h
  exact ⟨hcond, htest, htrue, hleave, hother, hfalse, hdone, trivial⟩

theorem codeAt_whileDo {loc : Location} {cond : Expr Literal} {body : Stmt Literal}
    (h : CodeAt code ip ((Stmt.whileDo loc cond body).code Γ n)) :
    let test := ip + 1 + (cond.code Γ (n + 2)).length
    let back := test + 1 + (body.code Γ (n + 2 + cond.labelCount)).length
    code[ip]? = some (.label (.ofNat n)) ∧ CodeAt code (ip + 1) (cond.code Γ (n + 2)) ∧
      code[test]? = some (.fjmp (.ofNat (n + 1))) ∧
      CodeAt code (test + 1) (body.code Γ (n + 2 + cond.labelCount)) ∧
      code[back]? = some (.jmp (.ofNat n)) ∧ code[back + 1]? = some (.label (.ofNat (n + 1))) ∧
      ip + ((Stmt.whileDo loc cond body).code Γ n).length = back + 1 + 1 := by
  simp only [Stmt.code, CodeAt.append, CodeAt.cons, List.length_append, List.length_cons,
    List.length_nil, Nat.zero_add, ← Nat.add_assoc] at h ⊢
  obtain ⟨⟨⟨⟨⟨hagain, -⟩, hcond⟩, htest, -⟩, hbody⟩, hback, hdone, -⟩ := h
  exact ⟨hagain, hcond, htest, hbody, hback, hdone, trivial⟩

theorem codeAt_doWhile {loc : Location} {body : Stmt Literal} {cond : Expr Literal}
    (h : CodeAt code ip ((Stmt.doWhile loc body cond).code Γ n)) :
    let check := ip + 1 + (body.code Γ (n + 2)).length
    let test := check + (cond.code Γ (n + 2 + body.labelCount)).length
    code[ip]? = some (.label (.ofNat n)) ∧ CodeAt code (ip + 1) (body.code Γ (n + 2)) ∧
      CodeAt code check (cond.code Γ (n + 2 + body.labelCount)) ∧
      code[test]? = some (.fjmp (.ofNat (n + 1))) ∧ code[test + 1]? = some (.jmp (.ofNat n)) ∧
      code[test + 1 + 1]? = some (.label (.ofNat (n + 1))) ∧
      ip + ((Stmt.doWhile loc body cond).code Γ n).length = test + 1 + 1 + 1 := by
  simp only [Stmt.code, CodeAt.append, CodeAt.cons, List.length_append, List.length_cons,
    List.length_nil, Nat.zero_add, ← Nat.add_assoc] at h ⊢
  obtain ⟨⟨⟨⟨hagain, -⟩, hbody⟩, hcond⟩, htest, hback, hdone, -⟩ := h
  exact ⟨hagain, hbody, hcond, htest, hback, hdone, trivial⟩

-- ---------------------------------------------------------------------------
-- The machine gets to the outcome
-- ---------------------------------------------------------------------------

/-- How many instructions a statement starts with that are not executed again
when it goes round: the label of a loop. -/
def Stmt.lead : Stmt Literal → Nat
  | .whileDo _ _ _ => 1
  | .doWhile _ _ _ => 1
  | _ => 0

/-- The label of a loop does nothing. -/
theorem Stmt.holdsAt_lead (hP : Precedes Γ P P) {s : Stmt Literal}
    (hcode : CodeAt code ip (s.code Γ n)) (hw : w.Typed Γ)
    (h : HoldsAt code options P (ip + s.lead) items w) : HoldsAt code options P ip items w := by
  cases s with
  | whileDo loc cond body => exact hP.label hw (codeAt_whileDo hcode).1 h
  | doWhile loc body cond => exact hP.label hw (codeAt_doWhile hcode).1 h
  | _ => exact h

theorem Finish.Satisfies.mono {o : Finish} {K K' : World → Prop} {F : Fault → World → Prop}
    (h : o.Satisfies K F) (ho : o.Sound Γ) (hK : ∀ w, w.Typed Γ → K w → K' w) :
    o.Satisfies K' F := by
  cases o with
  | done w => exact hK w ho h
  | fault f w => exact h

/-- The induction behind `Stmt.Runs.holdsAt`: a loop comes back to the place
behind its label, so the statement is about that place. -/
theorem Stmt.Runs.holdsAt_lead (hP : Precedes Γ P P) (hlabels : (Code.labelIds code).Nodup)
    (hmax : options.maxStack < UInt64.size) {s : Stmt Literal} {o : Finish}
    (hrun : s.Runs Γ options.prompt w o) (hs : s.WellTyped Γ)
    (hcode : CodeAt code ip (s.code Γ n)) (hw : w.Typed Γ)
    (h : o.Satisfies (HoldsAt code options P (ip + (s.code Γ n).length) items) (HoldsOnFault P)) :
    HoldsAt code options P (ip + s.lead) items w := by
  have hfind := fun {k id} => @Code.labelIndex?_of_nodup code hlabels k id
  induction hrun generalizing ip n with
  | empty => exact h
  | declaration => exact holdsAt_declareZeros hP hs.1 hs.2 hcode hw h
  | expression =>
    simp only [Stmt.code, CodeAt.append, List.length_append, List.length_cons, List.length_nil,
      Nat.zero_add, ← Nat.add_assoc] at hcode h
    refine Expr.holdsAt hP hlabels hs hcode.1 hw ?_
    refine (Expr.eval_sound hs hw).imp (Finish.satisfies_of.mp h) (fun v w' hv hk => ?_)
      fun _ _ _ hf => hf
    exact hP.pop hv.2 hcode.2.1 hk
  | read => exact holdsAt_readAll hP hs hcode hw (Finish.satisfies_of.mp h)
  | write =>
    simp only [Stmt.code, CodeAt.append, List.length_append, List.length_cons, List.length_nil,
      Nat.zero_add, ← Nat.add_assoc] at hcode h
    exact holdsAt_writeAll hP hlabels hmax hs hcode.1 hcode.2.1 hw (Finish.satisfies_of.mp h)
  | blockNil => exact h
  | blockCons hfirst hrest ihfirst ihrest =>
    simp only [Stmt.code, codeAll, CodeAt.append, List.length_append, ← Nat.add_assoc] at hcode h
    exact holdsAt_lead hP hcode.1 hw <| ihfirst hs.1 hcode.1 hw <|
      ihrest hs.2 hcode.2 (hfirst.sound hs.1 hw) h
  | blockFault hfirst ih =>
    simp only [Stmt.code, codeAll, CodeAt.append] at hcode
    exact holdsAt_lead hP hcode.1 hw (ih hs.1 hcode.1 hw h)
  | ifThenTest htest =>
    obtain ⟨hcond, hfjmp, hbody, hdone, hend⟩ := codeAt_ifThen hcode
    refine holdsAt_test hP hlabels hs.1 hcond hfjmp hdone hw ?_
    rw [wp, htest]
    exact h
  | ifThenTrue htest hrun ih =>
    obtain ⟨hcond, hfjmp, hbody, hdone, hend⟩ := codeAt_ifThen hcode
    have hw' := Expr.test_ok hs.1 hw htest
    rw [hend] at h
    refine holdsAt_test hP hlabels hs.1 hcond hfjmp hdone hw ?_
    rw [wp, htest]
    refine holdsAt_lead hP hbody hw' (ih hs.2 hbody hw' ?_)
    exact h.mono (hrun.sound hs.2 hw') fun w'' hw'' hk => hP.label hw'' hdone hk
  | ifThenFalse htest =>
    obtain ⟨hcond, hfjmp, hbody, hdone, hend⟩ := codeAt_ifThen hcode
    rw [hend] at h
    refine holdsAt_test hP hlabels hs.1 hcond hfjmp hdone hw ?_
    rw [wp, htest]
    exact h
  | ifElseTest htest =>
    obtain ⟨hcond, hfjmp, -, -, hother, -⟩ := codeAt_ifElse hcode
    refine holdsAt_test hP hlabels hs.1 hcond hfjmp hother hw ?_
    rw [wp, htest]
    exact h
  | ifElseTrue htest hrun ih =>
    obtain ⟨hcond, hfjmp, htrue, hleave, hother, -, hdone, hend⟩ := codeAt_ifElse hcode
    have hw' := Expr.test_ok hs.1 hw htest
    rw [hend] at h
    refine holdsAt_test hP hlabels hs.1 hcond hfjmp hother hw ?_
    rw [wp, htest]
    refine holdsAt_lead hP htrue hw' (ih hs.2.1 htrue hw' ?_)
    exact h.mono (hrun.sound hs.2.1 hw') fun w'' hw'' hk => hP.jmp hw'' hleave (hfind hdone) hk
  | ifElseFalse htest hrun ih =>
    obtain ⟨hcond, hfjmp, -, -, hother, hfalse, hdone, hend⟩ := codeAt_ifElse hcode
    have hw' := Expr.test_ok hs.1 hw htest
    rw [hend] at h
    refine holdsAt_test hP hlabels hs.1 hcond hfjmp hother hw ?_
    rw [wp, htest]
    refine holdsAt_lead hP hfalse hw' (ih hs.2.2 hfalse hw' ?_)
    exact h.mono (hrun.sound hs.2.2 hw') fun w'' hw'' hk => hP.label hw'' hdone hk
  | whileTest htest =>
    obtain ⟨-, hcond, hfjmp, -, -, hdone, -⟩ := codeAt_whileDo hcode
    refine holdsAt_test hP hlabels hs.1 hcond hfjmp hdone hw ?_
    rw [wp, htest]
    exact h
  | whileFalse htest =>
    obtain ⟨-, hcond, hfjmp, -, -, hdone, hend⟩ := codeAt_whileDo hcode
    rw [hend] at h
    refine holdsAt_test hP hlabels hs.1 hcond hfjmp hdone hw ?_
    rw [wp, htest]
    exact h
  | whileBody htest hrun ih =>
    obtain ⟨-, hcond, hfjmp, hbody, -, hdone, -⟩ := codeAt_whileDo hcode
    have hw' := Expr.test_ok hs.1 hw htest
    refine holdsAt_test hP hlabels hs.1 hcond hfjmp hdone hw ?_
    rw [wp, htest]
    exact holdsAt_lead hP hbody hw' (ih hs.2 hbody hw' h)
  | whileTrue htest hrun _ ihbody ihagain =>
    obtain ⟨hagain, hcond, hfjmp, hbody, hback, hdone, -⟩ := codeAt_whileDo hcode
    have hw' := Expr.test_ok hs.1 hw htest
    have hw'' := hrun.sound hs.2 hw'
    refine holdsAt_test hP hlabels hs.1 hcond hfjmp hdone hw ?_
    rw [wp, htest]
    exact holdsAt_lead hP hbody hw' <| ihbody hs.2 hbody hw' <|
      hP.jmp hw'' hback (hfind hagain) (ihagain hs hcode hw'' h)
  | doBody hrun ih =>
    obtain ⟨-, hbody, -⟩ := codeAt_doWhile hcode
    exact holdsAt_lead hP hbody hw (ih hs.2 hbody hw h)
  | doTest hrun htest ih =>
    obtain ⟨-, hbody, hcond, hfjmp, -, hdone, -⟩ := codeAt_doWhile hcode
    refine holdsAt_lead hP hbody hw (ih hs.2 hbody hw ?_)
    refine holdsAt_test hP hlabels hs.1 hcond hfjmp hdone (hrun.sound hs.2 hw) ?_
    rw [wp, htest]
    exact h
  | doFalse hrun htest ih =>
    obtain ⟨-, hbody, hcond, hfjmp, -, hdone, hend⟩ := codeAt_doWhile hcode
    rw [hend] at h
    refine holdsAt_lead hP hbody hw (ih hs.2 hbody hw ?_)
    refine holdsAt_test hP hlabels hs.1 hcond hfjmp hdone (hrun.sound hs.2 hw) ?_
    rw [wp, htest]
    exact h
  | doTrue hrun htest _ ihbody ihagain =>
    obtain ⟨hagain, hbody, hcond, hfjmp, hback, hdone, -⟩ := codeAt_doWhile hcode
    have hw' := hrun.sound hs.2 hw
    have hw'' := Expr.test_ok hs.1 hw' htest
    refine holdsAt_lead hP hbody hw (ihbody hs.2 hbody hw ?_)
    refine holdsAt_test hP hlabels hs.1 hcond hfjmp hdone hw' ?_
    rw [wp, htest]
    exact hP.jmp hw'' hback (hfind hagain) (ihagain hs hcode hw'' h)

/-- **The code of a statement reaches its outcome**: a precondition that holds
there holds in front of the code. -/
theorem Stmt.Runs.holdsAt (hP : Precedes Γ P P) (hlabels : (Code.labelIds code).Nodup)
    (hmax : options.maxStack < UInt64.size) {s : Stmt Literal} {o : Finish}
    (hrun : s.Runs Γ options.prompt w o) (hs : s.WellTyped Γ)
    (hcode : CodeAt code ip (s.code Γ n)) (hw : w.Typed Γ)
    (h : o.Satisfies (HoldsAt code options P (ip + (s.code Γ n).length) items) (HoldsOnFault P)) :
    HoldsAt code options P ip items w :=
  Stmt.holdsAt_lead hP hcode hw (hrun.holdsAt_lead hP hlabels hmax hs hcode hw h)

end

-- ---------------------------------------------------------------------------
-- The machine gets nowhere else
-- ---------------------------------------------------------------------------

/-- Preconditions about the next `n` steps, for every `n`. -/
structure Stepwise (Γ : Symbols) (P : Nat → Machine → Prop) : Prop where
  zero : ∀ {m : Machine}, m.world.Typed Γ → P 0 m
  succ : ∀ n, Precedes Γ (P (n + 1)) (P n)
  down : ∀ {n} {m : Machine}, P (n + 1) m → P n m

section

variable {Γ : Symbols} {P : Nat → Machine → Prop} {code : Code} {options : Options} {ip n : Nat}
  {items : List Value} {w : World}

theorem Stepwise.precedes (hP : Stepwise Γ P) (k : Nat) : Precedes Γ (P k) (P k) where
  step hm hstep h := hP.down ((hP.succ k).step hm hstep h)
  limit hm hstep hf := hP.down ((hP.succ k).limit hm hstep hf)

theorem Finish.Satisfies.down (hP : Stepwise Γ P) {o : Finish} {k : Nat}
    (h : o.Satisfies (HoldsAt code options (P (k + 1)) ip items) (HoldsOnFault (P (k + 1)))) :
    o.Satisfies (HoldsAt code options (P k) ip items) (HoldsOnFault (P k)) := by
  cases o with
  | done w => exact fun hlen steps => hP.down (h hlen steps)
  | fault f w => exact fun m m' hstep hm' => hP.down (h m m' hstep hm')

/-- **The code of a statement reaches nothing but its outcomes**: preconditions
that hold at each of them hold in front of the code. -/
theorem Stmt.holdsAt_of_runs (hP : Stepwise Γ P) (hlabels : (Code.labelIds code).Nodup)
    (hmax : options.maxStack < UInt64.size) {s : Stmt Literal} (hs : s.WellTyped Γ)
    (hcode : CodeAt code ip (s.code Γ n)) (hw : w.Typed Γ) {k : Nat}
    (h : ∀ o, s.Runs Γ options.prompt w o →
      o.Satisfies (HoldsAt code options (P k) (ip + (s.code Γ n).length) items)
        (HoldsOnFault (P k))) :
    HoldsAt code options (P k) ip items w := by
  have hfind := fun {at' id} => @Code.labelIndex?_of_nodup code hlabels at' id
  have hPk := hP.precedes
  induction s using Stmt.induction generalizing ip n w k with
  | empty loc => exact h _ .empty
  | declaration loc ty names =>
    exact Runs.holdsAt (hPk k) hlabels hmax .declaration hs hcode hw (h _ .declaration)
  | expression loc e =>
    exact Runs.holdsAt (hPk k) hlabels hmax .expression hs hcode hw (h _ .expression)
  | read loc names => exact Runs.holdsAt (hPk k) hlabels hmax .read hs hcode hw (h _ .read)
  | write loc exprs => exact Runs.holdsAt (hPk k) hlabels hmax .write hs hcode hw (h _ .write)
  | blockNil loc => exact h _ .blockNil
  | blockCons loc s rest ihs ihrest =>
    simp only [Stmt.code, codeAll, CodeAt.append, List.length_append, ← Nat.add_assoc] at hcode h
    refine ihs hs.1 hcode.1 hw fun o hrun => ?_
    cases o with
    | fault f w' => exact h _ (.blockFault hrun)
    | done w' => exact ihrest hs.2 hcode.2 (hrun.sound hs.1 hw) fun o ho => h o (.blockCons hrun ho)
  | ifThen loc cond onTrue ih =>
    obtain ⟨hcond, hfjmp, hbody, hdone, hend⟩ := codeAt_ifThen hcode
    rw [hend] at h
    refine holdsAt_test (hPk k) hlabels hs.1 hcond hfjmp hdone hw ?_
    rw [wp]
    cases htest : cond.test Γ w with
    | error f w' => exact h _ (.ifThenTest htest)
    | ok b w' =>
      have hw' := Expr.test_ok hs.1 hw htest
      cases b with
      | false => exact h _ (.ifThenFalse htest)
      | true =>
        refine ih hs.2 hbody hw' fun o hrun => ?_
        exact (h o (.ifThenTrue htest hrun)).mono (hrun.sound hs.2 hw')
          fun w'' hw'' hk => (hPk k).label hw'' hdone hk
  | ifElse loc cond onTrue onFalse iht ihf =>
    obtain ⟨hcond, hfjmp, htrue, hleave, hother, hfalse, hdone, hend⟩ := codeAt_ifElse hcode
    rw [hend] at h
    refine holdsAt_test (hPk k) hlabels hs.1 hcond hfjmp hother hw ?_
    rw [wp]
    cases htest : cond.test Γ w with
    | error f w' => exact h _ (.ifElseTest htest)
    | ok b w' =>
      have hw' := Expr.test_ok hs.1 hw htest
      cases b with
      | false =>
        refine ihf hs.2.2 hfalse hw' fun o hrun => ?_
        exact (h o (.ifElseFalse htest hrun)).mono (hrun.sound hs.2.2 hw')
          fun w'' hw'' hk => (hPk k).label hw'' hdone hk
      | true =>
        refine iht hs.2.1 htrue hw' fun o hrun => ?_
        exact (h o (.ifElseTrue htest hrun)).mono (hrun.sound hs.2.1 hw')
          fun w'' hw'' hk => (hPk k).jmp hw'' hleave (hfind hdone) hk
  | whileDo loc cond body ih =>
    obtain ⟨hagain, hcond, hfjmp, hbody, hback, hdone, hend⟩ := codeAt_whileDo hcode
    rw [hend] at h
    -- the jump back is a step, so the number of steps bounds the rounds
    refine (hPk k).label hw hagain ?_
    induction k generalizing w with
    | zero => exact fun _ steps => hP.zero hw
    | succ k ihk =>
      refine holdsAt_test (hPk _) hlabels hs.1 hcond hfjmp hdone hw ?_
      rw [wp]
      cases htest : cond.test Γ w with
      | error f w' => exact h _ (.whileTest htest)
      | ok b w' =>
        have hw' := Expr.test_ok hs.1 hw htest
        cases b with
        | false => exact h _ (.whileFalse htest)
        | true =>
          refine ih hs.2 hbody hw' fun o hrun => ?_
          cases o with
          | fault f w'' => exact h _ (.whileBody htest hrun)
          | done w'' =>
            have hw'' := hrun.sound hs.2 hw'
            refine (hP.succ k).jmp hw'' hback (hfind hagain) (ihk hw'' fun o ho => ?_)
            exact (h o (.whileTrue htest hrun ho)).down hP
  | doWhile loc body cond ih =>
    obtain ⟨hagain, hbody, hcond, hfjmp, hback, hdone, hend⟩ := codeAt_doWhile hcode
    rw [hend] at h
    refine (hPk k).label hw hagain ?_
    induction k generalizing w with
    | zero => exact fun _ steps => hP.zero hw
    | succ k ihk =>
      refine ih hs.2 hbody hw fun o hrun => ?_
      cases o with
      | fault f w' => exact h _ (.doBody hrun)
      | done w' =>
        have hw' := hrun.sound hs.2 hw
        refine holdsAt_test (hPk _) hlabels hs.1 hcond hfjmp hdone hw' ?_
        rw [wp]
        cases htest : cond.test Γ w' with
        | error f w'' => exact h _ (.doTest hrun htest)
        | ok b w'' =>
          have hw'' := Expr.test_ok hs.1 hw' htest
          cases b with
          | false => exact h _ (.doFalse hrun htest)
          | true =>
            refine (hP.succ k).jmp hw'' hback (hfind hagain) (ihk hw'' fun o ho => ?_)
            exact (h o (.doTrue hrun htest ho)).down hP

end

-- ---------------------------------------------------------------------------
-- Programs
-- ---------------------------------------------------------------------------

section

variable {program : Program} {options : Options} {input : List UInt8}

theorem Program.Checked.codeAt (h : program.Checked) :
    CodeAt program.compile.code 0 (program.asBlock.code program.symbols 0) :=
  h.wellTyped_code.2 ▸ CodeAt.self program.compile.code

theorem Program.Checked.length (h : program.Checked) :
    0 + (program.asBlock.code program.symbols 0).length = program.compile.code.length := by
  rw [Nat.zero_add, h.wellTyped_code.2]

/-- The machine gets to every outcome of the program. -/
theorem Program.Runs.holds (hprogram : program.Checked) (hmax : options.maxStack < UInt64.size)
    {P : Machine → Prop} (hP : Precedes program.symbols P P) {o : Finish}
    (hrun : program.Runs options.prompt input o)
    (h : o.Satisfies (HoldsAt program.compile.code options P program.compile.code.length [])
      (HoldsOnFault P)) :
    P (.start program.compile.code options input) := by
  have hlabels := Program.labelIds_nodup (Nat.le_of_lt hprogram.labels)
  rw [← hprogram.length] at h
  exact hrun.holdsAt hP hlabels hmax hprogram.wellTyped_code.1 hprogram.codeAt
    (World.typed_start _ _) h (Nat.zero_le _) 0

/-- The machine gets to nothing but the outcomes of the program. -/
theorem Program.holds_of_runs (hprogram : program.Checked) (hmax : options.maxStack < UInt64.size)
    {P : Nat → Machine → Prop} (hP : Stepwise program.symbols P) {k : Nat}
    (h : ∀ o, program.Runs options.prompt input o →
      o.Satisfies (HoldsAt program.compile.code options (P k) program.compile.code.length [])
        (HoldsOnFault (P k))) :
    P k (.start program.compile.code options input) := by
  have hlabels := Program.labelIds_nodup (Nat.le_of_lt hprogram.labels)
  rw [← hprogram.length] at h
  exact Stmt.holdsAt_of_runs hP hlabels hmax hprogram.wellTyped_code.1 hprogram.codeAt
    (World.typed_start _ _) h (Nat.zero_le _) 0

end

end Cairn
