import Cairn.Proofs.Correctness
import Cairn.Proofs.Promotion
import Cairn.Proofs.WholeNumbers

/-!
# Cairn — converting a choice early is not seen

Under two policies a program goes through the same statements, with values that
correspond to each other. What corresponds to what is left open at first: it is
enough that operators, assignments, choices and what is written respect it. Then
each outcome under one policy is matched by one under the other, unless one of
the two refuses a use on the way.

There are two such correspondences. Guarded values are the values that are kept,
and promoted ones are guarded ones behind their conversion. Together they say
when it cannot be seen that the code converts no branch of a choice.

## Main definitions

* `Policy.Compatible` — what is asked of two policies and a correspondence of values.

## Main statements

* `Stmt.RunsBy.mirrored`            — runs under compatible policies match.
* `Program.promotion_unobservable`  — code runs as if choices were converted.
-/

namespace Cairn

open Machine

-- ---------------------------------------------------------------------------
-- Results that agree
-- ---------------------------------------------------------------------------

/-- The fault says that the policy refused a use. -/
def Policy.Excuses (p : Policy) (f : Fault) : Prop :=
  p = .guarded ∧ f = .refusal

/-- Two operations go wrong together or have related results, unless one is
refused. -/
inductive Agree (p q : Policy) {α β : Type} (A : α → β → Prop) :
    Except Fault α → Except Fault β → Prop
  | ok {a b} : A a b → Agree p q A (.ok a) (.ok b)
  | error {f} : Agree p q A (.error f) (.error f)
  | left {f y} : p.Excuses f → Agree p q A (.error f) y
  | right {x f} : q.Excuses f → Agree p q A x (.error f)

theorem Agree.symm {p q : Policy} {α β : Type} {A : α → β → Prop} {x : Except Fault α}
    {y : Except Fault β} (h : Agree p q A x y) : Agree q p (fun b a => A a b) y x := by
  cases h with
  | ok h => exact .ok h
  | error => exact .error
  | left h => exact .right h
  | right h => exact .left h

theorem Agree.mono {p q : Policy} {α β : Type} {A B : α → β → Prop} {x : Except Fault α}
    {y : Except Fault β} (h : Agree p q A x y) (hAB : ∀ a b, A a b → B a b) :
    Agree p q B x y := by
  cases h with
  | ok h => exact .ok (hAB _ _ h)
  | error => exact .error
  | left h => exact .left h
  | right h => exact .right h

/-- How values of two runs correspond, type by type. -/
abbrev Correspondence := Ty → Value → Value → Prop

/-- All that a program does respects a correspondence of values under two
policies, unless it is refused. -/
structure Policy.Compatible (p q : Policy) (V : Correspondence) : Prop where
  same : ∀ {ty v}, v.ty = ty → V ty v v
  truth : ∀ {a b}, V .bool a b → ∃ c, a = .bool c ∧ b = .bool c
  unary : ∀ {op : UnaryOp} {operand ty v v'}, op.check operand = .ok ty → V operand v v' →
    Agree p q (V ty) (p.unary op operand v) (q.unary op operand v')
  binary : ∀ {op : BinaryOp} {left right ty wd a a' b b'}, op.Rule left right ty wd →
    V left a a' → V right b b' →
    Agree p q (V ty) (p.binary op left right a b) (q.binary op left right a' b')
  stored : ∀ {target : Ident} {found value ty wd v v'},
    judgeAssignment target found value = .ok (ty, wd) → V value v v' →
    V ty (v.stored found value) (v'.stored found value)
  chosen : ∀ {loc cond onTrue onFalse branch ty v v'},
    judgeBranches loc cond onTrue onFalse = .ok ty → branch = onTrue ∨ branch = onFalse →
    V branch v v' → V ty (p.chosen ty branch v) (q.chosen ty branch v')
  shown : ∀ {ty v v'}, V ty v v' →
    Agree p q (fun a b => a.text = b.text) (p.shown ty v) (q.shown ty v')

theorem Policy.Compatible.symm {p q : Policy} {V : Correspondence} (h : p.Compatible q V) :
    q.Compatible p fun ty a b => V ty b a where
  same := h.same
  truth hv := (h.truth hv).imp fun _ hc => ⟨hc.2, hc.1⟩
  unary hcheck hv := (h.unary hcheck hv).symm
  binary hrule ha hb := (h.binary hrule ha hb).symm
  stored := h.stored
  chosen := h.chosen
  shown hv := (h.shown hv).symm.mono fun _ _ htext => htext.symm

-- ---------------------------------------------------------------------------
-- Worlds and effects
-- ---------------------------------------------------------------------------

/-- Two worlds agree on the outside, and their names have values that correspond. -/
structure Matching (Γ : Symbols) (V : Correspondence) (w w' : World) : Prop where
  input : w.input = w'.input
  output : w.output = w'.output
  store : ∀ x, w.store.find? x = none ∧ w'.store.find? x = none ∨
    ∃ ty v v', Γ.find? x = some ty ∧ w.store.find? x = some v ∧ w'.store.find? x = some v' ∧
      V ty v v'

/-- Two effects have related results in worlds that match, unless one is refused. -/
inductive Aligned (p q : Policy) (Γ : Symbols) (V : Correspondence) {α β : Type}
    (A : α → β → Prop) : EStateM.Result Fault World α → EStateM.Result Fault World β → Prop
  | ok {a b w w'} : A a b → Matching Γ V w w' → Aligned p q Γ V A (.ok a w) (.ok b w')
  | error {f w w'} : Matching Γ V w w' → Aligned p q Γ V A (.error f w) (.error f w')
  | left {f w r'} : p.Excuses f → Aligned p q Γ V A (.error f w) r'
  | right {r f w'} : q.Excuses f → Aligned p q Γ V A r (.error f w')

/-- From worlds that match two effects have related results. -/
def Together (p q : Policy) (Γ : Symbols) (V : Correspondence) {α β : Type} (A : α → β → Prop)
    (x : Effect α) (y : Effect β) : Prop :=
  ∀ w w', Matching Γ V w w' → Aligned p q Γ V A (x w) (y w')

section

variable {p q : Policy} {Γ : Symbols} {V : Correspondence} {w w' : World}

theorem Matching.start (input : List UInt8) : Matching Γ V (.start input) (.start input) :=
  ⟨rfl, rfl, fun _ => .inl ⟨rfl, rfl⟩⟩

theorem Matching.set (h : Matching Γ V w w') {x : String} {ty : Ty} (hx : Γ.find? x = some ty)
    {v v' : Value} (hv : V ty v v') : Matching Γ V (w.set x v) (w'.set x v') where
  input := h.input
  output := h.output
  store y := by
    rw [World.set, World.set, Bindings.find?_insert, Bindings.find?_insert]
    split
    next hxy => exact .inr ⟨ty, v, v', hxy ▸ hx, rfl, rfl, hv⟩
    next => exact h.store y

theorem Matching.write (h : Matching Γ V w w') (text : String) :
    Matching Γ V (w.write text) (w'.write text) where
  input := h.input
  output := congrArg (· ++ text) h.output
  store := h.store

section

variable {α β γ δ : Type} {A : α → β → Prop} {B : γ → δ → Prop}

theorem Together.pure {a : α} {b : β} (h : A a b) : Together p q Γ V A (pure a) (pure b) :=
  fun _ _ hw => .ok h hw

theorem Together.bind {x : Effect α} {y : Effect β} {f : α → Effect γ} {g : β → Effect δ}
    (hx : Together p q Γ V A x y) (hf : ∀ a b, A a b → Together p q Γ V B (f a) (g b)) :
    Together p q Γ V B (x >>= f) (y >>= g) := by
  intro w w' hw
  have hresult := hx w w' hw
  show Aligned p q Γ V B (EStateM.bind x f w) (EStateM.bind y g w')
  rw [EStateM.bind, EStateM.bind]
  generalize x w = r at hresult
  generalize y w' = r' at hresult
  cases hresult with
  | ok hA hw => exact hf _ _ hA _ _ hw
  | error hw => exact .error hw
  | left h => exact .left h
  | right h => exact .right h

theorem Together.ofExcept {x : Except Fault α} {y : Except Fault β} (h : Agree p q A x y) :
    Together p q Γ V A (.ofExcept x) (.ofExcept y) := by
  intro w w' hw
  cases h with
  | ok h => exact .ok h hw
  | error => exact .error hw
  | left h => exact .left h
  | right h => exact .right h

end

-- ---------------------------------------------------------------------------
-- Expressions
-- ---------------------------------------------------------------------------

theorem Together.truth (hV : p.Compatible q V) {v v' : Value} (h : V .bool v v') :
    Together p q Γ V (· = ·) (Effect.truth v) (Effect.truth v') := by
  obtain ⟨b, rfl, rfl⟩ := hV.truth h
  exact .pure rfl

theorem Together.name {loc : Location} {x : String} (hx : (Expr.name loc x).ty Γ ≠ .error) :
    Together p q Γ V (V ((Expr.name loc x).ty Γ)) ((Expr.name loc x).evalBy p Γ)
      ((Expr.name loc x).evalBy q Γ) := by
  refine .bind (A := fun w w' => Matching Γ V w w') (fun w w' hw => .ok hw hw) fun w w' hw => ?_
  rcases hw.store x with ⟨hv, hv'⟩ | ⟨ty, v, v', hty, hv, hv', hvalue⟩
  · rw [hv, hv']
    exact fun _ _ hw => .error hw
  · have hsame : ty = (Expr.name loc x).ty Γ := by
      rw [Expr.find?_of_ty hx] at hty
      exact (Option.some.inj hty).symm
    rw [hv, hv']
    exact .pure (hsame ▸ hvalue)

/-- **The value of an expression under compatible policies.** -/
theorem Expr.together (hV : p.Compatible q V) {e : Expr Literal} (he : e.ty Γ ≠ .error) :
    Together p q Γ V (V (e.ty Γ)) (e.evalBy p Γ) (e.evalBy q Γ) := by
  induction e with
  | literal loc value => exact .pure (hV.same rfl)
  | name loc x => exact .name he
  | group loc inner ih => exact ih he
  | unary loc op operand ih =>
    refine .bind (ih (operand_of_unary he)) fun v v' hv => .ofExcept ?_
    exact hV.unary (UnaryOp.judge_eq_ok.mp (judge_of_unary he)) hv
  | binary loc op left right ihl ihr =>
    obtain ⟨wd, hjudge⟩ := judge_of_binary he
    obtain ⟨hleft, hright, hcheck⟩ := BinaryOp.judge_eq_ok.mp hjudge
    refine .bind (ihl hleft) fun a a' ha => .bind (ihr hright) fun b b' hb => .ofExcept ?_
    exact hV.binary (BinaryOp.rule_of_check hleft hcheck) ha hb
  | assign loc target value ih =>
    obtain ⟨wd, hjudge⟩ := judge_of_assign he
    obtain ⟨hfound, hvalue, -⟩ := judgeAssignment_eq_ok.mp hjudge
    refine .bind (ih hvalue) fun v v' hv => ?_
    have hstored := hV.stored hjudge hv
    exact fun w w' hw => .ok hstored (hw.set hfound hstored)
  | ternary loc cond onTrue onFalse ihc iht ihf =>
    have hjudge := judge_of_ternary he
    obtain ⟨hcond, htrue, hfalse, -⟩ := judgeBranches_eq_ok.mp hjudge
    rw [hcond] at ihc
    refine .bind (ihc (by decide)) fun v v' hv => .bind (.truth hV hv) ?_
    rintro b b' rfl
    cases b with
    | true => exact .bind (iht htrue) fun a a' ha => .pure (hV.chosen hjudge (.inl rfl) ha)
    | false => exact .bind (ihf hfalse) fun a a' ha => .pure (hV.chosen hjudge (.inr rfl) ha)

theorem Expr.test_together (hV : p.Compatible q V) {cond : Expr Literal}
    (hcond : cond.ty Γ = .bool) :
    Together p q Γ V (· = ·) (cond.testBy p Γ) (cond.testBy q Γ) := by
  have heval := cond.together (Γ := Γ) hV (by rw [hcond]; decide)
  rw [hcond] at heval
  exact heval.bind fun v v' hv => .truth hV hv

theorem showAll_together (hV : p.Compatible q V) {exprs : List (Expr Literal)}
    (h : ∀ e ∈ exprs, e.ty Γ ≠ .error) :
    Together p q Γ V (fun vs vs' => vs.map Value.text = vs'.map Value.text)
      (showAll p Γ exprs) (showAll q Γ exprs) := by
  induction exprs with
  | nil => exact .pure rfl
  | cons e rest ih =>
    refine .bind (e.together hV (h e List.mem_cons_self)) fun v v' hv => ?_
    refine .bind (.ofExcept (hV.shown hv)) fun u u' hu => ?_
    refine .bind (ih fun e he => h e (List.mem_cons_of_mem _ he)) fun vs vs' hvs => .pure ?_
    rw [List.map_cons, List.map_cons, hu, hvs]

theorem writeBy_together (hV : p.Compatible q V) {exprs : List (Expr Literal)}
    (h : ∀ e ∈ exprs, e.ty Γ ≠ .error) :
    Together p q Γ V (fun _ _ => True) (writeBy p Γ exprs) (writeBy q Γ exprs) := by
  refine .bind (showAll_together hV h) fun vs vs' hvs => ?_
  rw [hvs]
  exact fun w w' hw => .ok trivial (hw.write _)

-- ---------------------------------------------------------------------------
-- Input and declarations
-- ---------------------------------------------------------------------------

theorem Together.get : Together p q Γ V (Matching Γ V) get get :=
  fun _ _ hw => .ok hw hw

theorem inputLine_together : Together p q Γ V (· = ·) inputLine inputLine := by
  refine .bind .get fun w w' hw => ?_
  rw [hw.input]
  split
  · exact fun _ _ hw => .error hw
  · refine .bind (A := fun _ _ => True) (fun _ _ _ => .ok trivial ⟨rfl, hw.output, hw.store⟩) ?_
    intro _ _ _
    cases ofUtf8? (takeLine w'.input).1 with
    | some text => exact .pure rfl
    | none => exact fun _ _ hw => .error hw

theorem takeValue_together (hV : p.Compatible q V) (tag : Tag) :
    Together p q Γ V (V tag.ty) (takeValue tag) (takeValue tag) := by
  refine .bind inputLine_together ?_
  rintro line _ rfl
  cases hv : Value.ofLine? tag line with
  | some v => exact .pure (hV.same (Value.ty_ofLine? hv))
  | none => exact fun _ _ hw => .error hw

theorem readValue_together (hV : p.Compatible q V) (prompt : Bool) (tag : Tag) :
    Together p q Γ V (V tag.ty) (readValue prompt tag) (readValue prompt tag) := by
  cases prompt with
  | false => exact takeValue_together hV tag
  | true => exact fun w w' hw => takeValue_together hV tag _ _ (hw.write _)

theorem readAll_together (hV : p.Compatible q V) (prompt : Bool) (names : List Ident) :
    Together p q Γ V (fun _ _ => True) (readAll Γ prompt names) (readAll Γ prompt names) := by
  induction names with
  | nil => exact .pure trivial
  | cons x rest ih =>
    rw [readAll]
    cases htag : readTag? Γ x with
    | none => exact ih
    | some tag =>
      refine .bind (readValue_together hV prompt tag) fun v v' hv => ?_
      exact fun w w' hw => ih _ _ (hw.set (Symbols.find?_of_readTag? htag) hv)

theorem Matching.declareZeros (hV : p.Compatible q V) {ty : Ty} {names : List Ident}
    (h : ∀ x ∈ names, Γ.find? x.name = some ty) (hw : Matching Γ V w w') :
    Matching Γ V (declareZeros ty names w) (declareZeros ty names w') := by
  induction names generalizing w w' with
  | nil => exact hw
  | cons x rest ih =>
    refine ih (fun y hy => h y (List.mem_cons_of_mem _ hy)) ?_
    cases hzero : ty.zero? with
    | none => exact hw
    | some zero => exact hw.set (h x List.mem_cons_self) (hV.same (Value.ty_zero? hzero))

-- ---------------------------------------------------------------------------
-- Statements
-- ---------------------------------------------------------------------------

/-- The outcome is that the policy refused a use. -/
def Finish.Refused (p : Policy) (o : Finish) : Prop :=
  ∃ f w, o = .fault f w ∧ p.Excuses f

/-- Two runs end in the same way, in worlds that match. -/
inductive Finish.Same (Γ : Symbols) (V : Correspondence) : Finish → Finish → Prop
  | done {u u'} : Matching Γ V u u' → Same Γ V (.done u) (.done u')
  | fault {f u u'} : Matching Γ V u u' → Same Γ V (.fault f u) (.fault f u')

/-- An outcome under the first policy is matched by one under the second, unless
one of the two is refused. -/
def Stmt.Mirrors (p q : Policy) (Γ : Symbols) (V : Correspondence) (prompt : Bool)
    (s : Stmt Literal) (w' : World) (o : Finish) : Prop :=
  o.Refused p ∨ ∃ o', s.RunsBy q Γ prompt w' o' ∧ (o'.Refused q ∨ o.Same Γ V o')

namespace Stmt

variable {prompt : Bool}

theorem Mirrors.of_same {s : Stmt Literal} {o o' : Finish} (hrun : s.RunsBy q Γ prompt w' o')
    (h : o.Same Γ V o') : s.Mirrors p q Γ V prompt w' o :=
  .inr ⟨o', hrun, .inr h⟩

theorem Mirrors.of_refused {s : Stmt Literal} {o : Finish} {f : Fault} {u : World}
    (hrun : s.RunsBy q Γ prompt w' (.fault f u)) (h : q.Excuses f) :
    s.Mirrors p q Γ V prompt w' o :=
  .inr ⟨_, hrun, .inl ⟨f, u, rfl, h⟩⟩

theorem Mirrors.of_together {s : Stmt Literal} {α β : Type} {A : α → β → Prop} {x : Effect α}
    {y : Effect β} (h : Together p q Γ V A x y) (hw : Matching Γ V w w')
    (hrun : s.RunsBy q Γ prompt w' (.of (y w'))) : s.Mirrors p q Γ V prompt w' (.of (x w)) := by
  have hresult := h w w' hw
  generalize x w = r at hresult
  generalize y w' = r' at hresult hrun
  cases hresult with
  | ok _ hw => exact .of_same hrun (.done hw)
  | error hw => exact .of_same hrun (.fault hw)
  | left h => exact .inl ⟨_, _, rfl, h⟩
  | right h => exact .of_refused hrun h

theorem Mirrors.map {s t : Stmt Literal} {u' : World} {o : Finish}
    (h : s.Mirrors p q Γ V prompt u' o)
    (hrun : ∀ o', s.RunsBy q Γ prompt u' o' → t.RunsBy q Γ prompt w' o') :
    t.Mirrors p q Γ V prompt w' o :=
  h.imp_right fun ⟨o', ho', hsame⟩ => ⟨o', hrun o' ho', hsame⟩

/-- **Runs under compatible policies match.** -/
theorem RunsBy.mirrored (hV : p.Compatible q V) {s : Stmt Literal} {o : Finish}
    (h : s.RunsBy p Γ prompt w o) (hs : s.WellTyped Γ) (hw : Matching Γ V w w') :
    s.Mirrors p q Γ V prompt w' o := by
  induction h generalizing w' with
  | empty => exact .of_same .empty (.done hw)
  | declaration => exact .of_same .declaration (.done (hw.declareZeros hV hs.2))
  | expression => exact .of_together (Expr.together hV hs) hw .expression
  | read => exact .of_together (readAll_together hV prompt _) hw .read
  | write => exact .of_together (writeBy_together hV hs) hw .write
  | blockNil => exact .of_same .blockNil (.done hw)
  | blockCons _ _ ihs ihrest =>
    rcases ihs hs.1 hw with ⟨f, u, hf, -⟩ | ⟨o', hrun, ⟨f, u, rfl, hf⟩ | hsame⟩
    · cases hf
    · exact .of_refused (.blockFault hrun) hf
    · cases hsame with
      | done hw => exact (ihrest hs.2 hw).map fun _ hrest => .blockCons hrun hrest
  | blockFault _ ih =>
    rcases ih hs.1 hw with hrefused | ⟨o', hrun, ⟨f, u, rfl, hf⟩ | hsame⟩
    · exact .inl hrefused
    · exact .of_refused (.blockFault hrun) hf
    · cases hsame with
      | fault hw => exact .of_same (.blockFault hrun) (.fault hw)
  | @ifElseTest _ cond _ _ w _ _ htest =>
    have hresult := Expr.test_together hV hs.1 w w' hw
    rw [htest] at hresult
    generalize htest' : cond.testBy q Γ w' = r' at hresult
    cases hresult with
    | error hw => exact .of_same (.ifElseTest htest') (.fault hw)
    | left h => exact .inl ⟨_, _, rfl, h⟩
    | right h => exact .of_refused (.ifElseTest htest') h
  | @ifElse _ cond onTrue onFalse w b _ _ htest _ ih =>
    have hresult := Expr.test_together hV hs.1 w w' hw
    rw [htest] at hresult
    generalize htest' : cond.testBy q Γ w' = r' at hresult
    cases hresult with
    | ok hb hw =>
      subst hb
      have hbranch : WellTyped Γ (if b then onTrue else onFalse) := by
        cases b with
        | true => exact hs.2.1
        | false => exact hs.2.2
      exact (ih hbranch hw).map fun _ hrun => .ifElse htest' hrun
    | right h => exact .of_refused (.ifElseTest htest') h
  | ifThen _ ih => exact (ih ⟨hs.1, hs.2, trivial⟩ hw).map fun _ => .ifThen
  | whileDo _ ih => exact (ih ⟨hs.1, hs.2, hs, trivial⟩ hw).map fun _ => .whileDo
  | doWhile _ ih => exact (ih ⟨hs.2, hs, trivial⟩ hw).map fun _ => .doWhile

end Stmt

end

-- ---------------------------------------------------------------------------
-- Guarded values are the values that are kept
-- ---------------------------------------------------------------------------

/-- The values are the same. -/
def Correspondence.same : Correspondence :=
  fun ty v v' => v.Fits ty ∧ v' = v

theorem Policy.kept_compatible : kept.Compatible guarded .same where
  same h := ⟨.inl h, rfl⟩
  truth := by
    rintro a _ ⟨ha, rfl⟩
    obtain ⟨c, rfl⟩ := Value.fits_bool ha
    exact ⟨c, rfl, rfl⟩
  unary := by
    rintro op operand ty v _ hcheck ⟨hv, rfl⟩
    obtain ⟨u, hu, hfits⟩ := UnaryOp.eval_sound hcheck hv
    rw [unary_eq kept_ne, unary]
    split
    · exact .right ⟨rfl, rfl⟩
    · rw [hu]
      exact .ok ⟨hfits, rfl⟩
  binary := by
    rintro op left right ty wd a _ b _ hrule ⟨ha, rfl⟩ ⟨hb, rfl⟩
    rw [binary_eq kept_ne, binary]
    split
    · exact .right ⟨rfl, rfl⟩
    · rcases BinaryOp.eval_sound hrule ha hb with ⟨v, hv, hfits⟩ | hzero
      · rw [hv]
        exact .ok ⟨hfits, rfl⟩
      · rw [hzero]
        exact .error
  stored := by
    rintro target found value ty wd v _ hjudge ⟨hv, rfl⟩
    exact ⟨Value.stored_fits hjudge hv, rfl⟩
  chosen := by
    rintro loc cond onTrue onFalse branch ty v _ hjudge hbranch ⟨hv, rfl⟩
    refine ⟨Value.branch_fits hjudge ?_, rfl⟩
    rcases hbranch with rfl | rfl
    · exact .inl hv
    · exact .inr hv
  shown := by
    rintro ty v _ ⟨-, rfl⟩
    rw [shown_eq kept_ne, shown]
    split
    · exact .right ⟨rfl, rfl⟩
    · exact .ok rfl

-- ---------------------------------------------------------------------------
-- Promoted values are guarded ones behind their conversion
-- ---------------------------------------------------------------------------

/-- A value as one of the given type. -/
def Value.promote (ty : Ty) (v : Value) : Value :=
  if ty = .float then v.widen else v

theorem Value.double?_promote (ty : Ty) (v : Value) : (v.promote ty).double? = v.double? := by
  rw [promote]
  split
  · exact v.double?_widen
  · rfl

/-- The second value is the first one behind its conversion. -/
def Correspondence.promoted : Correspondence :=
  fun ty v v' => v.Fits ty ∧ v' = v.promote ty

theorem intToDouble_neg {i : Int64} (hzero : i ≠ 0) (hleast : i ≠ Int64.minValue) :
    intToDouble (-i) = (intToDouble i).neg := by
  have hi : i.toInt ≠ 0 := fun h => hzero (Int64.toInt_inj.mp h)
  have hlow := i.le_toInt
  have hhigh := i.toInt_lt
  have hne : i.toInt ≠ -2 ^ 63 := fun h =>
    hleast (Int64.toInt_inj.mp (h.trans Int64.toInt_minValue.symm))
  have hneg : (-i).toInt = -i.toInt := by
    rw [Int64.toInt_neg]
    exact Int.bmod_eq_of_le (by omega) (by omega)
  rw [intToDouble, intToDouble, hneg, Double.neg_ofInt hi]

theorem UnaryOp.eval_promote {op : UnaryOp} {operand ty : Ty} (hcheck : op.check operand = .ok ty)
    {v : Value} (hv : v.Fits operand) (huse : operand = .float → (Use.negated v).harmless) :
    op.eval (v.promote operand) = (op.eval v).map (·.promote ty) := by
  cases op <;> cases operand <;> cases hcheck
  case neg.int =>
    obtain ⟨i, rfl⟩ := Value.fits_int hv
    rfl
  case neg.float =>
    rcases Value.fits_float hv with ⟨i, rfl⟩ | ⟨x, rfl⟩
    · obtain ⟨hzero, hleast⟩ := of_decide_eq_true (huse rfl)
      have hneg := intToDouble_neg hzero hleast
      exact congrArg (fun x => Except.ok (Value.float x)) hneg.symm
    · rfl
  case not.bool =>
    obtain ⟨b, rfl⟩ := Value.fits_bool hv
    rfl

theorem Arithmetic.eval_promote (op : Arithmetic) (symbol : String) {left right : Ty} {a b : Value}
    (h : Operands left right a b) :
    op.eval symbol left right (a.promote left) (b.promote right) =
      (op.eval symbol left right a b).map (·.promote (resultTy left right)) := by
  have hdouble : ∀ {v : Value} {x : Double}, v.double? = some x →
      (v.promote .float).double? = some x :=
    fun hv => (Value.double?_promote _ _).trans hv
  cases h with
  | ints i j =>
    rcases op.onInts_sound i j with ⟨k, hk⟩ | hzero
    · simp [eval, hk, Except.map, Value.promote, resultTy]
    · simp [eval, hzero, Except.map, Value.promote]
  | left i hb =>
    rw [eval_doubles (by decide) rfl hb, eval_doubles (by decide) rfl (hdouble hb)]
    rfl
  | right ha j =>
    rw [eval_doubles (by decide) ha rfl, eval_doubles (by decide) (hdouble ha) rfl]
    rfl
  | floats ha hb =>
    rw [eval_doubles (by decide) ha hb, eval_doubles (by decide) (hdouble ha) (hdouble hb)]
    rfl

/-- Comparing converted numbers is comparing the numbers, if that holds of two integers. -/
theorem compareNumbers_promote {symbol : String} {onInts : Int64 → Int64 → Bool}
    {onDoubles : Double → Double → Bool} {left right : Ty} {a b : Value}
    (h : Operands left right a b)
    (hints : ∀ i j, left = .float → right = .float → a = .int i → b = .int j →
      onInts i j = onDoubles (intToDouble i) (intToDouble j)) :
    compareNumbers symbol onInts onDoubles
        ((Widening.ofTypes left right).convertLeft (a.promote left))
        ((Widening.ofTypes left right).convertRight (b.promote right)) =
      compareNumbers symbol onInts onDoubles ((Widening.ofTypes left right).convertLeft a)
        ((Widening.ofTypes left right).convertRight b) := by
  cases h with
  | ints i j => rfl
  | left i hb => cases b <;> cases hb <;> rfl
  | right ha j => cases a <;> cases ha <;> rfl
  | floats ha hb =>
    cases a <;> cases b <;> cases ha <;> cases hb
    case int.int.refl.refl => exact congrArg Except.ok (hints _ _ rfl rfl rfl rfl).symm
    all_goals rfl

theorem intToDouble_lt {i j : Int64} (h : Double.StayApart i.toInt j.toInt) :
    decide (i < j) = (intToDouble i).lt (intToDouble j) := by
  rw [intToDouble, intToDouble, Double.lt_ofInt h]
  exact decide_eq_decide.mpr Int64.lt_iff_toInt_lt

theorem intToDouble_eq {i j : Int64} (h : Double.StayApart i.toInt j.toInt) :
    (i == j) = (intToDouble i).eq (intToDouble j) := by
  rw [intToDouble, intToDouble, Double.eq_ofInt h]
  exact decide_eq_decide.mpr Int64.toInt_inj.symm

theorem Use.compared_harmless_iff {i j : Int64} :
    (Use.compared (.int i) (.int j)).harmless ↔ Double.StayApart i.toInt j.toInt := by
  refine decide_eq_true_iff.trans (or_congr Int64.toInt_inj.symm (not_congr ?_))
  exact Double.eq_ofInt_iff

theorem Use.compared_harmless {i j : Int64} (hi : i.toInt.natAbs ≤ 2 ^ 53)
    (hj : j.toInt.natAbs ≤ 2 ^ 53) : (Use.compared (.int i) (.int j)).harmless :=
  compared_harmless_iff.mpr (Double.stayApart_of_small hi hj)

theorem Use.written_harmless {i : Int64} (hi : i.toInt.natAbs ≤ 2 ^ 53) :
    (Use.written (.int i)).harmless :=
  decide_eq_true (Layout.plain_ofInt hi)

theorem equalValues_promote (symbol : String) {left right : Ty} (h : left.Comparable right)
    {a b : Value} (ha : a.Fits left) (hb : b.Fits right)
    (hapart : ∀ i j, left = .float → right = .float → a = .int i → b = .int j →
      Double.StayApart i.toInt j.toInt) :
    equalValues symbol ((Widening.ofTypes left right).convertLeft (a.promote left))
        ((Widening.ofTypes left right).convertRight (b.promote right)) =
      equalValues symbol ((Widening.ofTypes left right).convertLeft a)
        ((Widening.ofTypes left right).convertRight b) := by
  rcases h with ⟨hleft, hright⟩ | ⟨rfl, rfl⟩ | ⟨rfl, rfl⟩
  · obtain ⟨x, hx⟩ := Value.double?_of_numeric hleft ha
    obtain ⟨y, hy⟩ := Value.double?_of_numeric hright hb
    rw [equalValues_of_numbers, equalValues_of_numbers,
      compareNumbers_promote (Operands.of_fits hleft hright ha hb)]
    · intro i j hl hr hi hj
      exact intToDouble_eq (hapart i j hl hr hi hj)
    · exact (Widening.double?_convertLeft _ a).trans hx
    · exact (Widening.double?_convertRight _ b).trans hy
    · exact (Widening.double?_convertLeft _ _).trans ((Value.double?_promote _ a).trans hx)
    · exact (Widening.double?_convertRight _ _).trans ((Value.double?_promote _ b).trans hy)
  · rfl
  · rfl

theorem BinaryOp.eval_promote {op : BinaryOp} {left right ty : Ty} {wd : Widening}
    (hrule : op.Rule left right ty wd) {a b : Value} (ha : a.Fits left) (hb : b.Fits right)
    (huse : op.compares → left = .float → right = .float → (Use.compared a b).harmless) :
    op.eval left right (a.promote left) (b.promote right) =
      (op.eval left right a b).map (·.promote ty) := by
  have hapart : op.compares → ∀ i j, left = .float → right = .float → a = .int i → b = .int j →
      Double.StayApart i.toInt j.toInt := by
    rintro hop i j hleft hright rfl rfl
    exact Use.compared_harmless_iff.mp (huse hop hleft hright)
  cases hrule with
  | arithmetic kind hop hleft hright =>
    have hops := Operands.of_fits hleft hright ha hb
    subst hop
    cases kind <;> exact Arithmetic.eval_promote _ _ hops
  | mod =>
    obtain ⟨i, rfl⟩ := Value.fits_int ha
    obtain ⟨j, rfl⟩ := Value.fits_int hb
    by_cases hj : j = 0 <;> simp [eval, hj, Value.promote, Except.map]
  | concat =>
    obtain ⟨s, rfl⟩ := Value.fits_string ha
    obtain ⟨t, rfl⟩ := Value.fits_string hb
    rfl
  | order hop hleft hright =>
    have hops := Operands.of_fits hleft hright ha hb
    rcases hop with rfl | rfl
    · obtain ⟨c, hc⟩ := order_sound hleft hright ha hb _
      rw [eval, eval, compareNumbers_promote hops, hc]
      · rfl
      · intro i j hl hr hi hj
        exact intToDouble_lt (hapart rfl i j hl hr hi hj)
    · obtain ⟨c, hc⟩ := order_sound hleft hright ha hb _
      rw [eval, eval, compareNumbers_promote hops, hc]
      · rfl
      · intro i j hl hr hi hj
        exact intToDouble_lt (hapart rfl i j hl hr hi hj).symm
  | equality hop h =>
    have hop' : op.compares := by rcases hop with rfl | rfl <;> rfl
    have hsame := equalValues_promote op.text h ha hb (hapart hop')
    obtain ⟨c, hc⟩ := @equality_sound op.text left right h a b ha hb
    rcases hop with rfl | rfl
    all_goals
      rw [eval, eval, hsame, hc]
      rfl
  | connective hop =>
    obtain ⟨p, rfl⟩ := Value.fits_bool ha
    obtain ⟨q, rfl⟩ := Value.fits_bool hb
    rcases hop with rfl | rfl <;> rfl

/-- A number that is converted is written as before, if it may be written. -/
theorem Value.text_promote {ty : Ty} {v : Value}
    (huse : ty = .float → (Use.written v).harmless) : (v.promote ty).text = v.text := by
  rw [promote]
  split
  · next hty => exact of_decide_eq_true (huse hty)
  · rfl

/-- The value of a converted branch is that of the choice. -/
theorem Value.promote_chosen {loc : Location} {cond onTrue onFalse branch ty : Ty} {v : Value}
    (hjudge : judgeBranches loc cond onTrue onFalse = .ok ty)
    (hbranch : branch = onTrue ∨ branch = onFalse) :
    (v.promote branch).stored (some ty) branch = v.promote ty := by
  obtain ⟨-, -, -, ⟨rfl, rfl⟩ | ⟨-, htrue, hfalse, rfl⟩⟩ := judgeBranches_eq_ok.mp hjudge
  · obtain rfl : branch = ty := hbranch.elim id id
    refine if_neg ?_
    rintro ⟨hfloat, rfl⟩
    cases hfloat
  · have hnumeric : branch.isNumeric := by
      rcases hbranch with rfl | rfl
      · exact htrue
      · exact hfalse
    cases branch <;> cases hnumeric <;> rfl

theorem Policy.promoted_compatible : guarded.Compatible promoted .promoted where
  same := by
    rintro ty v rfl
    refine ⟨.inl rfl, ?_⟩
    cases v <;> rfl
  truth := by
    rintro a _ ⟨ha, rfl⟩
    obtain ⟨c, rfl⟩ := Value.fits_bool ha
    exact ⟨c, rfl, rfl⟩
  unary := by
    rintro op operand ty v _ hcheck ⟨hv, rfl⟩
    obtain ⟨u, hu, hfits⟩ := UnaryOp.eval_sound hcheck hv
    rw [unary, unary_eq promoted_ne]
    split
    next => exact .left ⟨rfl, rfl⟩
    next huse =>
      rw [UnaryOp.eval_promote hcheck hv, hu]
      · exact .ok ⟨hfits, rfl⟩
      · intro hty
        simpa [hty, refuses] using huse
  binary := by
    rintro op left right ty wd a _ b _ hrule ⟨ha, rfl⟩ ⟨hb, rfl⟩
    rw [binary, binary_eq promoted_ne]
    split
    next => exact .left ⟨rfl, rfl⟩
    next huse =>
      have hpromote := BinaryOp.eval_promote hrule ha hb fun hop hleft hright => by
        simpa [hop, hleft, hright, refuses] using huse
      rcases BinaryOp.eval_sound hrule ha hb with ⟨v, hv, hfits⟩ | hzero
      · rw [hpromote, hv]
        exact .ok ⟨hfits, rfl⟩
      · rw [hpromote, hzero]
        exact .error
  stored := by
    rintro target found value ty wd v _ hjudge ⟨hv, rfl⟩
    refine ⟨Value.stored_fits hjudge hv, ?_⟩
    rw [Value.stored_eq hjudge, Value.stored_eq hjudge]
    obtain ⟨-, -, ⟨rfl, rfl⟩ | ⟨rfl, rfl, rfl⟩⟩ := judgeAssignment_eq_ok.mp hjudge
    · rfl
    · obtain ⟨i, rfl⟩ := Value.fits_int hv
      rfl
  chosen := by
    rintro loc cond onTrue onFalse branch ty v _ hjudge hbranch ⟨hv, rfl⟩
    refine ⟨Value.branch_fits hjudge ?_, Value.promote_chosen hjudge hbranch⟩
    rcases hbranch with rfl | rfl
    · exact .inl hv
    · exact .inr hv
  shown := by
    rintro ty v _ ⟨-, rfl⟩
    rw [shown, shown_eq promoted_ne]
    split
    next => exact .left ⟨rfl, rfl⟩
    next huse =>
      refine .ok (Value.text_promote fun hty => ?_).symm
      simpa [hty, refuses] using huse

-- ---------------------------------------------------------------------------
-- Programs
-- ---------------------------------------------------------------------------

section

variable {program : Program} {options : Options} {input : List UInt8}

theorem Finish.Same.seen {Γ : Symbols} {V : Correspondence} {o o' : Finish} (h : o.Same Γ V o') :
    o'.ending = o.ending ∧ o'.world.output = o.world.output := by
  cases h with
  | done hw => exact ⟨rfl, hw.output.symm⟩
  | fault hw => exact ⟨rfl, hw.output.symm⟩

/-- Where no use is refused, a run under one of two compatible policies is seen
as one under the other. -/
theorem Program.RunsBy.seen {p q : Policy} {V : Correspondence} (hV : p.Compatible q V)
    (hprogram : program.Checked) {prompt : Bool}
    (hharmless : ∀ w, ¬ program.RunsBy .guarded prompt input (.fault .refusal w)) {o : Finish}
    (h : program.RunsBy p prompt input o) :
    ∃ o', program.RunsBy q prompt input o' ∧ o'.ending = o.ending ∧
      o'.world.output = o.world.output := by
  rcases Stmt.RunsBy.mirrored hV h hprogram.wellTyped_code.1 (.start input) with
    ⟨f, w, rfl, rfl, rfl⟩ | ⟨o', hrun, ⟨f, w, rfl, rfl, rfl⟩ | hsame⟩
  · exact absurd h (hharmless w)
  · exact absurd hrun (hharmless w)
  · exact ⟨o', hrun, hsame.seen⟩

/-- Where no use is refused, promoted runs are seen as the runs of the program. -/
theorem Program.runsBy_promoted_iff (hprogram : program.Checked) {prompt : Bool}
    (hharmless : ∀ w, ¬ program.RunsBy .guarded prompt input (.fault .refusal w)) (e : Ending)
    (text : String) :
    (∃ o, program.RunsBy .promoted prompt input o ∧ o.ending = e ∧ o.world.output = text) ↔
      ∃ o, program.Runs prompt input o ∧ o.ending = e ∧ o.world.output = text := by
  constructor
  · rintro ⟨o, hrun, rfl, rfl⟩
    obtain ⟨o₁, hrun₁, hending₁, hout₁⟩ :=
      Program.RunsBy.seen Policy.promoted_compatible.symm hprogram hharmless hrun
    obtain ⟨o₂, hrun₂, hending₂, hout₂⟩ :=
      Program.RunsBy.seen Policy.kept_compatible.symm hprogram hharmless hrun₁
    exact ⟨o₂, Stmt.runsBy_kept.mp hrun₂, hending₂.trans hending₁, hout₂.trans hout₁⟩
  · rintro ⟨o, hrun, rfl, rfl⟩
    obtain ⟨o₁, hrun₁, hending₁, hout₁⟩ :=
      Program.RunsBy.seen Policy.kept_compatible hprogram hharmless (Stmt.runsBy_kept.mpr hrun)
    obtain ⟨o₂, hrun₂, hending₂, hout₂⟩ :=
      Program.RunsBy.seen Policy.promoted_compatible hprogram hharmless hrun₁
    exact ⟨o₂, hrun₂, hending₂.trans hending₁, hout₂.trans hout₁⟩

end

/-- A choice between an integer and a half, made for the integer. -/
def choiceOf (loc : Location) (i : Int64) : Expr Literal :=
  .ternary loc (.literal loc (.bool true)) (.literal loc (.int i))
    (.literal loc (.float ⟨0x3fe0000000000000⟩))

/-- Stores the integer 3 into a floating point name, changes its sign, compares
it with another such integer, one beyond `2 ^ 53`, and writes it. -/
def smallChoice : Program :=
  let loc : Location := .between { } { }
  let x : Expr Literal := .name loc "x"
  [.declaration loc .float [⟨"x", loc⟩],
    .expression loc (.assign loc ⟨"x", loc⟩ (choiceOf loc 3)),
    .write loc [.unary loc .neg x, .binary loc .lt x (choiceOf loc 9007199254740993), x]]

theorem smallChoice_checked : smallChoice.Checked where
  declaresReal := by simp [smallChoice, Program.asBlock, Stmt.DeclaresReal, Stmt.All, Stmt.AllOf]
  labels := by decide +kernel
  clean := by decide +kernel

theorem smallChoice_harmless (w : World) :
    ¬ smallChoice.RunsBy .guarded false [] (.fault .refusal w) := by
  intro hrefused
  have hrun : smallChoice.RunsBy .guarded false []
      (.done ⟨Bindings.empty.insert "x" (.int 3), [], "-3true3\n"⟩) := by
    refine .blockCons .declaration (.blockCons
      (.of_eval (o := .done ⟨Bindings.empty.insert "x" (.int 3), [], ""⟩) ?_)
      (.single (.of_write ?_)))
    · decide +kernel
    · decide +kernel
  cases hrun.unique hrefused

/-- Writes an integer that is one beyond `2 ^ 53` as the value of a floating point
choice. -/
def largeChoice : Program :=
  let loc : Location := .between { } { }
  [.write loc [choiceOf loc 9007199254740993]]

theorem largeChoice_checked : largeChoice.Checked where
  declaresReal := by simp [largeChoice, Program.asBlock, Stmt.DeclaresReal, Stmt.All, Stmt.AllOf]
  labels := by decide +kernel
  clean := by decide +kernel

end Cairn
