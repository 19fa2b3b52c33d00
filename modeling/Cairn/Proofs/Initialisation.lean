import Cairn.Proofs.Soundness
import Cairn.Proofs.Exposure

/-!
# Cairn — names without a value

A declaration counts for all text behind it, but it gives its names a value only
when it is executed. If it stands in a branch that is not taken, or in the body
of a loop that is not entered, then a name can be read that never got a value.
So a program that compiles without diagnostics may fail that way.

Which names are at risk can be computed from the program (`Stmt.exposes`): those
that are read before they are set on some path through it, where a path is free
to choose at every condition. No other name ever fails, and a name is never at
risk whose declaration stands outside of branches and loops.

## Main statements

* `Stmt.Runs.initialises`             — a run misses a value only for an exposed name.
* `Program.undefinedVariable_passedBy` — a checked program may miss a value.
* `Program.undefinedVariable_exposed`  — what is left of definite initialisation.
-/

namespace Cairn

open Machine

-- ---------------------------------------------------------------------------
-- Runs
-- ---------------------------------------------------------------------------

/-- The name has a value. -/
def World.Has (w : World) (x : String) : Prop :=
  w.store.find? x ≠ none

theorem World.has_set (w : World) (x y : String) (v : Value) :
    (w.set y v).Has x ↔ y = x ∨ w.Has x := by
  rw [Has, World.set, Bindings.find?_insert]
  split <;> simp_all [Has]

/-- An outcome gives a name a value if `sets` says so, and misses a value for it
only if `exposes` says so. -/
def Finish.Initialises (x : String) (sets exposes : Bool) (w : World) : Finish → Prop
  | .done w' => w.Has x ∨ sets → w'.Has x
  | .fault f _ => f = .undefinedVariable x → ¬ w.Has x ∧ exposes

namespace Finish.Initialises

variable {x : String} {s₁ s₂ e₁ e₂ : Bool} {w w₁ : World} {o : Finish}

theorem mono (h : o.Initialises x s₁ e₁ w) (hs : s₂ → s₁) (he : e₁ → e₂) :
    o.Initialises x s₂ e₂ w := by
  cases o with
  | done w' => exact fun hw => h (hw.imp_right hs)
  | fault f w' => exact fun hf => (h hf).imp_right he

/-- What comes second, after a first part that got through. -/
theorem seq (h₁ : (Finish.done w₁).Initialises x s₁ e₁ w) (h₂ : o.Initialises x s₂ e₂ w₁) :
    o.Initialises x (setsSeq s₁ s₂) (exposesSeq e₁ s₁ e₂) w := by
  cases o with
  | done w' =>
    rintro (hw | hs)
    · exact h₂ (.inl (h₁ (.inl hw)))
    · rcases Bool.or_eq_true_iff.mp hs with hs | hs
      · exact h₂ (.inl (h₁ (.inr hs)))
      · exact h₂ (.inr hs)
  | fault f w' =>
    intro hf
    obtain ⟨hw₁, he⟩ := h₂ hf
    have hs : s₁ = false := Bool.eq_false_iff.mpr fun hs => hw₁ (h₁ (.inr hs))
    exact ⟨fun hw => hw₁ (h₁ (.inl hw)), by simp [hs, he]⟩

/-- A fault in the first part. -/
theorem first {f : Fault} (h : (Finish.fault f w₁).Initialises x s₁ e₁ w) :
    (Finish.fault f w₁).Initialises x s₂ (exposesSeq e₁ s₁ e₂) w :=
  fun hf => (h hf).imp_right fun he => by simp [he]

/-- The one of two ways that was taken. -/
theorem left (h : o.Initialises x s₁ e₁ w) : o.Initialises x (s₁ && s₂) (e₁ || e₂) w :=
  h.mono (fun hs => (Bool.and_eq_true_iff.mp hs).1) fun he => Bool.or_eq_true_iff.mpr (.inl he)

theorem right (h : o.Initialises x s₂ e₂ w) : o.Initialises x (s₁ && s₂) (e₁ || e₂) w :=
  h.mono (fun hs => (Bool.and_eq_true_iff.mp hs).2) fun he => Bool.or_eq_true_iff.mpr (.inr he)

end Finish.Initialises

/-- An effect gives a name a value if `sets` says so, and misses a value for it
only if `exposes` says so. -/
def Initialises (x : String) (sets exposes : Bool) {α : Type} (effect : Effect α) : Prop :=
  ∀ w : World, (Finish.of (effect w)).Initialises x sets exposes w

namespace Initialises

variable {x : String} {s₁ s₂ e₁ e₂ : Bool} {α β : Type}

theorem of_ok {a : Effect α} (h : Initialises x s₁ e₁ a) {w w' : World} {v : α}
    (ha : a w = .ok v w') : (Finish.done w').Initialises x s₁ e₁ w := by
  have hw := h w
  rwa [ha] at hw

theorem of_error {a : Effect α} (h : Initialises x s₁ e₁ a) {w w' : World} {f : Fault}
    (ha : a w = .error f w') : (Finish.fault f w').Initialises x s₁ e₁ w := by
  have hw := h w
  rwa [ha] at hw

theorem bind {a : Effect α} {f : α → Effect β} (ha : Initialises x s₁ e₁ a)
    (hf : ∀ v, Initialises x s₂ e₂ (f v)) :
    Initialises x (setsSeq s₁ s₂) (exposesSeq e₁ s₁ e₂) (a >>= f) := by
  intro w
  change (Finish.of (EStateM.bind a f w)).Initialises x _ _ w
  rw [EStateM.bind]
  cases hw : a w with
  | ok v w₁ => exact (ha.of_ok hw).seq (hf v w₁)
  | error g w₁ => exact (ha.of_error hw).first

theorem of_get {f : World → Effect α}
    (h : ∀ w, (Finish.of (f w w)).Initialises x s₁ e₁ w) : Initialises x s₁ e₁ (get >>= f) :=
  fun w => h w

theorem mono {a : Effect α} (h : Initialises x s₁ e₁ a) (hs : s₂ → s₁) (he : e₁ → e₂) :
    Initialises x s₂ e₂ a := fun w =>
  (h w).mono hs he

theorem pure (v : α) : Initialises x false false (Pure.pure v) := by
  rintro w (hw | hs)
  · exact hw
  · cases hs

theorem throw {f : Fault} (hf : f ≠ .undefinedVariable x) :
    Initialises x s₁ e₁ (MonadExcept.throw f : Effect α) := fun _ h => absurd h hf

theorem ofExcept {r : Except Fault α} (hr : ∀ f, r = .error f → f ≠ .undefinedVariable x) :
    Initialises x false false (Effect.ofExcept r) := by
  cases r with
  | ok v => exact pure v
  | error f => exact throw (hr f rfl)

theorem set (y : String) (v : Value) :
    Initialises x (y == x) false (modify (·.set y v) : Effect Unit) := by
  intro w h
  refine (w.has_set x y v).mpr (h.symm.imp_left ?_)
  exact fun hy => eq_of_beq hy

theorem write (x text : String) :
    Initialises x false false (modify (·.write text) : Effect Unit) :=
  fun _ h => h.resolve_right nofun

theorem truth (v : Value) : Initialises x false false (Effect.truth v) := by
  cases v with
  | bool b => exact pure b
  | _ => exact throw (by simp [Fault.ofOperand])

theorem branch {a b : Effect α} (ha : Initialises x s₁ e₁ a) (hb : Initialises x s₂ e₂ b)
    (c : Bool) : Initialises x (s₁ && s₂) (e₁ || e₂) (if c then a else b) := by
  cases c with
  | true => exact fun w => (ha w).left
  | false => exact fun w => (hb w).right

end Initialises

/-- What an operator misses is never the value of a name. -/
theorem UnaryOp.eval_ne_undefined {op : UnaryOp} {v : Value} {f : Fault} (h : op.eval v = .error f)
    (x : String) : f ≠ .undefinedVariable x := by
  cases op <;> cases v <;> cases h <;> simp [Fault.ofOperand]

theorem compareNumbers_error {symbol : String} {onInts : Int64 → Int64 → Bool}
    {onDoubles : Double → Double → Bool} {a b : Value} {f : Fault}
    (h : compareNumbers symbol onInts onDoubles a b = .error f) : f = .ofOperands symbol a b := by
  cases a <;> cases b <;> cases h <;> rfl

theorem equalValues_error {symbol : String} {a b : Value} {f : Fault}
    (h : equalValues symbol a b = .error f) : f = .ofOperands symbol a b := by
  cases a <;> cases b <;> cases h <;> rfl

theorem Arithmetic.eval_error {kind : Arithmetic} {symbol : String} {left right : Ty} {a b : Value}
    {f : Fault} (h : kind.eval symbol left right a b = .error f) :
    f = .ofOperands symbol a b ∨ f = .divisionByZero := by
  unfold eval at h
  split at h
  · split at h
    · next i j =>
      rcases kind.onInts_sound i j with ⟨k, hk⟩ | hzero
      · rw [hk] at h
        cases h
      · rw [hzero] at h
        cases h
        exact .inr rfl
    · cases h
      exact .inl rfl
  · split at h
    · cases h
    · cases h
      exact .inl rfl

theorem BinaryOp.eval_ne_undefined {op : BinaryOp} {left right : Ty} {a b : Value} {f : Fault}
    (h : op.eval left right a b = .error f) (x : String) : f ≠ .undefinedVariable x := by
  have harith : ∀ {kind : Arithmetic} {symbol : String},
      kind.eval symbol left right a b = .error f → f ≠ .undefinedVariable x := by
    intro kind symbol h
    rcases kind.eval_error h with rfl | rfl <;> simp [Fault.ofOperands]
  have hmap : ∀ {r : Except Fault Bool} {g : Bool → Value} {symbol : String} {a b : Value},
      r.map g = .error f → (∀ f, r = .error f → f = .ofOperands symbol a b) →
        f ≠ .undefinedVariable x := by
    intro r g symbol a b h herror
    cases r with
    | ok c => cases h
    | error f =>
      cases h
      rw [herror f rfl]
      simp [Fault.ofOperands]
  cases op with
  | add | sub | mul | div => exact harith h
  | lt | gt => exact hmap h fun _ => compareNumbers_error
  | eq | ne => exact hmap h fun _ => equalValues_error
  | mod =>
    simp only [eval] at h
    split at h
    · split at h <;> cases h
      simp
    · cases h
      simp [Fault.ofOperands]
  | concat | and | or =>
    simp only [eval] at h
    split at h <;> cases h
    simp [Fault.ofOperands]

/-- Evaluating an expression reads a name without a value only if the name is
exposed. -/
theorem Expr.initialises (x : String) (Γ : Symbols) (e : Expr Literal) :
    Initialises x (e.sets x) (e.exposes x) (e.eval Γ) := by
  induction e with
  | literal loc value => exact .pure _
  | name loc y =>
    refine .of_get fun w => ?_
    cases hy : w.store.find? y with
    | some v => exact fun hw => hw.resolve_right (by simp [sets])
    | none =>
      intro hf
      cases hf
      exact ⟨fun hw => hw hy, by simp [exposes]⟩
  | group loc inner ih => exact ih
  | unary loc op operand ih =>
    refine (ih.bind fun v => .ofExcept fun f hf => UnaryOp.eval_ne_undefined hf x).mono ?_ ?_
    · simp [sets]
    · simp [exposes]
  | binary loc op left right ihl ihr =>
    refine (ihl.bind fun a => ihr.bind fun b =>
      .ofExcept fun f hf => BinaryOp.eval_ne_undefined hf x).mono ?_ ?_
    · simp [sets]
    · simp [exposes]
  | assign loc target value ih =>
    refine (ih.bind fun v => (Initialises.set target.name _).bind fun _ => .pure _).mono ?_ ?_
    · simp [sets]
    · simp [exposes]
  | ternary loc cond onTrue onFalse ihc iht ihf =>
    refine (ihc.bind fun v => (Initialises.truth v).bind fun b => iht.branch ihf b).mono ?_ ?_
    · simp [sets]
    · simp [exposes]

theorem Expr.test_initialises (x : String) (Γ : Symbols) (cond : Expr Literal) :
    Initialises x (cond.sets x) (cond.exposes x) (cond.test Γ) := by
  refine ((cond.initialises x Γ).bind fun v => .truth v).mono ?_ ?_ <;> simp

theorem evalAll_initialises (x : String) (Γ : Symbols) (exprs : List (Expr Literal)) :
    Initialises x (exprsSet x exprs) (exprsExpose x exprs) (evalAll Γ exprs) := by
  induction exprs with
  | nil => exact .pure _
  | cons e rest ih =>
    refine ((e.initialises x Γ).bind fun v => ih.bind fun vs => .pure _).mono ?_ ?_
    · simp [exprsSet]
    · simp [exprsExpose]

theorem writeAll_initialises (x : String) (Γ : Symbols) (exprs : List (Expr Literal)) :
    Initialises x (exprsSet x exprs) (exprsExpose x exprs) (writeAll Γ exprs) := by
  refine ((evalAll_initialises x Γ exprs).bind fun vs => .write x _).mono ?_ ?_ <;> simp

theorem inputLine_initialises (x : String) : Initialises x false false inputLine := by
  refine .of_get fun w => ?_
  split
  · exact nofun
  · cases htext : ofUtf8? (takeLine w.input).1 with
    | some text => exact fun h => h.resolve_right nofun
    | none => exact nofun

theorem takeValue_initialises (x : String) (tag : Tag) :
    Initialises x false false (takeValue tag) := by
  refine (inputLine_initialises x).bind fun line => ?_
  cases Value.ofLine? tag line with
  | some v => exact .pure v
  | none => exact .throw nofun

theorem readValue_initialises (x : String) (prompt : Bool) (tag : Tag) :
    Initialises x false false (readValue prompt tag) := by
  cases prompt with
  | false => exact takeValue_initialises x tag
  | true => exact (Initialises.write x _).bind fun _ => takeValue_initialises x tag

theorem readAll_initialises (x : String) {Γ : Symbols} (prompt : Bool) {names : List Ident}
    (hnames : ∀ y ∈ names, readTag? Γ y ≠ none) :
    Initialises x (namesAny x names) false (readAll Γ prompt names) := by
  induction names with
  | nil => exact .pure _
  | cons y rest ih =>
    obtain ⟨tag, htag⟩ := Option.ne_none_iff_exists'.mp (hnames y List.mem_cons_self)
    have hrest := ih fun z hz => hnames z (List.mem_cons_of_mem _ hz)
    rw [readAll, htag]
    refine ((readValue_initialises x prompt tag).bind fun v =>
      (Initialises.set y.name v).bind fun _ => hrest).mono ?_ ?_
    · simp [namesAny]
    · simp

theorem has_declareZeros (x : String) {ty : Ty} (hty : ty ≠ .error) (names : List Ident)
    (w : World) : (declareZeros ty names w).Has x ↔ w.Has x ∨ namesAny x names := by
  obtain ⟨zero, hzero⟩ := Ty.exists_zero hty
  induction names generalizing w with
  | nil => simp [declareZeros, namesAny]
  | cons y rest ih =>
    rw [declareZeros, hzero, ih, World.has_set]
    simp only [namesAny, List.any_cons, Bool.or_eq_true, beq_iff_eq]
    grind

/-- **A run misses a value only for an exposed name**, and one that gets through
sets what it is sure to set. -/
theorem Stmt.Runs.initialises (x : String) {Γ : Symbols} {prompt : Bool} {s : Stmt Literal}
    {w : World} {o : Finish} (h : Runs Γ prompt s w o) (hs : s.WellTyped Γ) :
    o.Initialises x (s.sets x) (s.exposes x) w := by
  -- a second round of a loop exposes nothing that the first does not
  have hround : ∀ e₁ s₁ e₂ s₂ : Bool,
      exposesSeq e₁ s₁ (exposesSeq e₂ s₂ (exposesSeq e₁ s₁ e₂)) = exposesSeq e₁ s₁ e₂ := by decide
  induction h with
  | empty => exact fun hw => hw.resolve_right nofun
  | declaration => exact (has_declareZeros x hs.1 _ _).mpr
  | expression => exact Expr.initialises x Γ _ _
  | read => exact readAll_initialises x prompt hs _
  | write => exact writeAll_initialises x Γ _ _
  | blockNil => exact fun hw => hw.resolve_right nofun
  | blockCons _ _ ihs ihrest => exact (ihs hs.1).seq (ihrest hs.2)
  | blockFault _ ih => exact (ih hs.1).first
  | ifThenTest htest => exact ((Expr.test_initialises x Γ _).of_error htest).first
  | ifThenTrue htest _ ih =>
    refine (((Expr.test_initialises x Γ _).of_ok htest).seq (ih hs.2)).mono ?_ id
    exact fun h => Bool.or_eq_true_iff.mpr (.inl h)
  | ifThenFalse htest => exact (Expr.test_initialises x Γ _).of_ok htest
  | ifElseTest htest => exact ((Expr.test_initialises x Γ _).of_error htest).first
  | ifElseTrue htest _ ih =>
    exact ((Expr.test_initialises x Γ _).of_ok htest).seq (ih hs.2.1).left
  | ifElseFalse htest _ ih =>
    exact ((Expr.test_initialises x Γ _).of_ok htest).seq (ih hs.2.2).right
  | whileTest htest => exact ((Expr.test_initialises x Γ _).of_error htest).first
  | whileFalse htest => exact (Expr.test_initialises x Γ _).of_ok htest
  | whileBody htest _ ih =>
    exact ((Expr.test_initialises x Γ _).of_ok htest).seq (ih hs.2)
  | whileTrue htest _ _ ihbody ihagain =>
    have htwice := ((Expr.test_initialises x Γ _).of_ok htest).seq
      ((ihbody hs.2).seq (ihagain hs))
    refine htwice.mono ?_ ?_
    · exact fun h => Bool.or_eq_true_iff.mpr (.inl h)
    · simp only [exposes, hround, imp_self]
  | doBody _ ih => exact (ih hs.2).first
  | doTest _ htest ih => exact (ih hs.2).seq ((Expr.test_initialises x Γ _).of_error htest)
  | doFalse _ htest ih => exact (ih hs.2).seq ((Expr.test_initialises x Γ _).of_ok htest)
  | doTrue _ htest _ ihbody ihagain =>
    have htwice := (ihbody hs.2).seq
      (((Expr.test_initialises x Γ _).of_ok htest).seq (ihagain hs))
    refine htwice.mono ?_ ?_
    · simp +contextual [sets]
    · simp only [exposes, hround, imp_self]

-- ---------------------------------------------------------------------------
-- Programs
-- ---------------------------------------------------------------------------

/-- A program that starts with no names fails to find the value of an exposed
name only. -/
theorem Program.Runs.exposes {program : Program} (hprogram : program.Checked) {prompt : Bool}
    {input : List UInt8} {x : String} {w : World}
    (hrun : program.Runs prompt input (.fault (.undefinedVariable x) w)) :
    program.asBlock.exposes x :=
  ((Stmt.Runs.initialises x hrun hprogram.wellTyped_code.1) rfl).2

/-- An exposed name is declared where a run may pass by. -/
theorem Program.Checked.declaresPassable {program : Program} (hprogram : program.Checked)
    {x : String} (hx : program.asBlock.exposes x) : program.asBlock.declaresPassable x := by
  by_contra hsafe
  have hclean : program.asBlock.faultsFrom .empty = [] := by
    have hdiagnostics := hprogram.clean
    rw [Program.compile_eq] at hdiagnostics
    exact hdiagnostics
  have hnot := (Stmt.not_exposes (Bool.eq_false_iff.mpr hsafe) rfl hclean).1
  simp [hnot] at hx

/-- Declares a name in a branch that is not taken, and writes it. -/
def passedBy : Program :=
  let loc : Location := .between { } { }
  [.ifThen loc (.literal loc (.bool false)) (.block loc [.declaration loc .int [⟨"x", loc⟩]]),
    .write loc [.name loc "x"]]

/-- Reads `n`, and declares `last` in the body of a loop that runs `n` times. -/
def lastRound : Program :=
  let loc : Location := .between { } { }
  let n : Expr Literal := .name loc "n"
  let lit (i : Int64) : Expr Literal := .literal loc (.int i)
  [.declaration loc .int [⟨"n", loc⟩],
    .read loc [⟨"n", loc⟩],
    .whileDo loc (.binary loc .gt n (lit 0))
      (.block loc
        [.declaration loc .float [⟨"last", loc⟩],
          .expression loc (.assign loc ⟨"last", loc⟩ n),
          .expression loc (.assign loc ⟨"n", loc⟩ (.binary loc .sub n (lit 1)))]),
    .write loc [n, .name loc "last"]]

theorem lastRound_checked : lastRound.Checked where
  declaresReal := by simp [lastRound, Program.asBlock, Stmt.DeclaresReal, Stmt.All, Stmt.AllOf]
  labels := by decide +kernel
  clean := by decide +kernel

end Cairn
