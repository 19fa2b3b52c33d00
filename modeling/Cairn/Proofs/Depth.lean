import Cairn.Proofs.Tracking

/-!
# Cairn — how deeply parsed programs nest

A parsed program never nests parentheses and blocks past the limit: resolving
counts them in the tree. Unary operators are counted by the scan alone, which
takes the text behind a carriage return in a line comment for part of the
comment. Where only blanks and line comments stand there, the scan sees all
that the grammar reads, and unary operators count as levels like the others.

## Main definitions

* `Expr.nesting`, `Stmt.nesting` — the levels of a tree.

## Main statements

* `Grammar.program_nesting`  — the scan bounds the tree of a quiet text.
* `Stmt.resolveAll_resolved` — resolving bounds parentheses and blocks.
* `Program.nesting_le_limit` — both, for parsed programs.
-/

namespace Cairn

open Nesting (Levels Safe)

-- ---------------------------------------------------------------------------
-- The levels of a tree
-- ---------------------------------------------------------------------------

section

variable {L : Type}

/-- The most levels on a path from the expression to a leaf: one for parentheses
and `w` for a unary operator. -/
def Expr.nesting : Expr L → Nat → Nat
  | .literal _ _, _ => 0
  | .name _ _, _ => 0
  | .group _ inner, w => inner.nesting w + 1
  | .unary _ _ operand, w => operand.nesting w + w
  | .binary _ _ left right, w => max (left.nesting w) (right.nesting w)
  | .assign _ _ value, w => value.nesting w
  | .ternary _ cond onTrue onFalse, w =>
    max (cond.nesting w) (max (onTrue.nesting w) (onFalse.nesting w))

/-- The most levels of any of the expressions. -/
def Expr.nestingAll : List (Expr L) → Nat → Nat
  | [], _ => 0
  | e :: rest, w => max (e.nesting w) (nestingAll rest w)

mutual

/-- The most levels on a path from the statement to a leaf: one for parentheses
and blocks, and `w` for a unary operator. -/
def Stmt.nesting : Stmt L → Nat → Nat
  | .empty _, _ => 0
  | .declaration _ _ _, _ => 0
  | .expression _ e, w => e.nesting w
  | .read _ _, _ => 0
  | .write _ exprs, w => Expr.nestingAll exprs w
  | .block _ body, w => Stmt.nestingAll body w + 1
  | .ifThen _ cond onTrue, w => max (cond.nesting w) (onTrue.nesting w)
  | .ifElse _ cond onTrue onFalse, w =>
    max (cond.nesting w) (max (onTrue.nesting w) (onFalse.nesting w))
  | .whileDo _ cond body, w => max (cond.nesting w) (body.nesting w)
  | .doWhile _ body cond, w => max (body.nesting w) (cond.nesting w)

/-- The most levels of any of the statements. -/
def Stmt.nestingAll : List (Stmt L) → Nat → Nat
  | [], _ => 0
  | s :: rest, w => max (s.nesting w) (Stmt.nestingAll rest w)

end

/-- The expression stays within the limit where `d` levels are open already. -/
def Expr.Bounded (limit d : Nat) (e : Expr L) : Prop :=
  d + e.nesting 1 ≤ limit

/-- The statement stays within the limit where `d` levels are open already. -/
def Stmt.Bounded (limit d : Nat) (s : Stmt L) : Prop :=
  d + s.nesting 1 ≤ limit

variable {limit d : Nat}

theorem add_max_le {m n : Nat} (hm : d + m ≤ limit) (hn : d + n ≤ limit) :
    d + max m n ≤ limit := by
  omega

/-- The deepest member of a list stays within the limit if each one does. -/
theorem add_deepest_le {α : Type} {f : α → Nat} {g : List α → Nat} (hnil : g [] = 0)
    (hcons : ∀ a rest, g (a :: rest) = max (f a) (g rest)) {as : List α} (hd : d ≤ limit)
    (h : ∀ a ∈ as, d + f a ≤ limit) : d + g as ≤ limit := by
  induction as with
  | nil =>
    rw [hnil]
    exact hd
  | cons a rest ih =>
    obtain ⟨ha, hrest⟩ := List.forall_mem_cons.mp h
    rw [hcons]
    exact add_max_le ha (ih hrest)

theorem Expr.nestingAll_le {exprs : List (Expr L)} (hd : d ≤ limit)
    (h : ∀ e ∈ exprs, e.Bounded limit d) : d + Expr.nestingAll exprs 1 ≤ limit :=
  add_deepest_le (g := (Expr.nestingAll · 1)) rfl (fun _ _ => rfl) hd h

theorem Stmt.nestingAll_le {body : List (Stmt L)} (hd : d ≤ limit)
    (h : ∀ s ∈ body, s.Bounded limit d) : d + Stmt.nestingAll body 1 ≤ limit :=
  add_deepest_le (g := (Stmt.nestingAll · 1)) rfl (fun _ _ => rfl) hd h

-- ---------------------------------------------------------------------------
-- The trees of chains
-- ---------------------------------------------------------------------------

theorem Expr.nesting_attach (op : BinaryOp) (right e : Expr L) (w : Nat) :
    (Expr.attach op right e).nesting w = max (e.nesting w) (right.nesting w) := by
  induction e with
  | binary loc op' left right' ihl ihr =>
    rw [Expr.attach]
    split
    · simp only [Expr.nesting, ihr, Nat.max_assoc]
    · rfl
  | _ => rfl

theorem Expr.bounded_ofChain {first : Expr L} {more : List (BinaryOp × Expr L)}
    (hfirst : first.Bounded limit d) (hmore : ∀ next ∈ more, next.2.Bounded limit d) :
    (Expr.ofChain first more).Bounded limit d := by
  induction more generalizing first with
  | nil => exact hfirst
  | cons next more ih =>
    obtain ⟨hnext, hmore⟩ := List.forall_mem_cons.mp hmore
    refine ih ?_ hmore
    show d + (Expr.attach next.1 next.2 first).nesting 1 ≤ limit
    rw [Expr.nesting_attach]
    exact add_max_le hfirst hnext

theorem Expr.nesting_ofOperand (ops : List (UnaryOp × Location)) (operand : Expr L) :
    (Expr.ofOperand ops operand).nesting 1 = operand.nesting 1 + ops.length := by
  induction ops with
  | nil => rfl
  | cons op ops ih =>
    show (Expr.ofOperand ops operand).nesting 1 + 1 = operand.nesting 1 + (ops.length + 1)
    rw [ih]
    omega

end

-- ---------------------------------------------------------------------------
-- Expressions of a quiet text
-- ---------------------------------------------------------------------------

namespace Grammar

open Parser.Settles

variable {limit : Nat} {S : Levels → Prop} {e : Parser (Expr Lexeme)}

theorem literal_settles {value : Parser Lexeme}
    (h : value.Settles limit S fun _ _ => True) (r : Rule) :
    (literal r value).Settles limit S (Expr.Bounded limit) := by
  refine rule (located (h.map ?_)) r
  intro d _ hd _ _
  exact hd

theorem group_settles (he : e.Settles limit Levels.IsSettled (Expr.Bounded limit)) :
    (group e).Settles limit S (Expr.Bounded limit) := by
  refine rule (located (closed_settles (.inl rfl) fun l => ?_)) _
  refine (opened_tracks (.inl rfl) he l).map ?_
  rintro inner m ⟨hm, hinner⟩
  refine ⟨hm, fun loc => ?_⟩
  have hinner : l.depth + 1 + inner.nesting 1 ≤ limit := hinner
  show l.depth + (inner.nesting 1 + 1) ≤ limit
  omega

theorem primary_settles (he : e.Settles limit Levels.IsSettled (Expr.Bounded limit)) :
    (primary e).Settles limit S (Expr.Bounded limit) := by
  have hfloat : (Parser.word Word.float).Settles limit S fun _ _ => True := Word.plain_float.settles
  have hint : (Parser.word Word.int).Settles limit S fun _ _ => True := Word.plain_int.settles
  have htrue : (keyword .true).Settles limit S fun _ _ => True := keyword_settles .true
  have hfalse : (keyword .false).Settles limit S fun _ _ => True := keyword_settles .false
  have hname : name.Settles limit S (Expr.Bounded limit) :=
    ident_settles.map fun _ _ hd _ => hd
  exact orElse (literal_settles (hfloat.map fun _ _ _ _ => trivial) _) <|
    orElse (literal_settles (hint.map fun _ _ _ _ => trivial) _) <|
    orElse (literal_settles (string_settles.map fun _ _ _ _ => trivial) _) <|
    orElse (literal_settles (orElse (htrue.map fun _ _ _ _ => trivial)
      (hfalse.map fun _ _ _ _ => trivial)) _) <|
    orElse hname (group_settles he)

theorem operand_settles (he : e.Settles limit Levels.IsSettled (Expr.Bounded limit)) :
    (operand e).Settles limit S (Expr.Bounded limit) := by
  intro l _
  -- Each sign adds a level, and all of them are over behind the operand.
  have hsigns : (Parser.many (unaryOp .neg <|> unaryOp .not)).Tracks limit l fun ops m =>
      m.settle = l.settle ∧ m.depth = l.depth + ops.length := by
    refine Parser.Tracks.many ?_ ⟨rfl, rfl⟩
    rintro ops m ⟨hm, hdepth⟩
    refine ((unaryOp_tracks .neg).orElse (unaryOp_tracks .not)).mono ?_
    rintro op _ rfl
    refine ⟨by rw [Levels.settle_addPending, hm], ?_⟩
    rw [List.length_append, ← Nat.add_assoc, ← hdepth]
    rfl
  have happly : (Expr.ofOperand <$> Parser.many (unaryOp .neg <|> unaryOp .not)).Tracks limit l
      fun f m => m.settle = l.settle ∧ ∀ operand : Expr Lexeme,
        operand.Bounded limit m.depth → (f operand).Bounded limit l.depth := by
    refine hsigns.map ?_
    rintro ops m ⟨hm, hdepth⟩
    refine ⟨hm, fun operand hoperand => ?_⟩
    have hoperand : m.depth + operand.nesting 1 ≤ limit := hoperand
    show l.depth + (Expr.ofOperand ops operand).nesting 1 ≤ limit
    rw [Expr.nesting_ofOperand]
    omega
  refine happly.seq ?_
  rintro f m ⟨hm, hf⟩
  refine (primary_settles (S := fun _ => True) he m trivial).mono ?_
  rintro operand _ ⟨rfl, hoperand⟩
  exact ⟨hm, hf operand hoperand⟩

/-- No operand starts with a star. -/
theorem run_operand_star {c : Cursor} {tail : List Char} (h : c.rest = '*' :: tail) :
    (operand e).run c = none := by
  obtain ⟨rest, place⟩ := c
  cases h
  rfl

theorem binary_settles (he : e.Settles limit Levels.IsSettled (Expr.Bounded limit)) :
    (binary e).Settles limit Levels.IsSettled (Expr.Bounded limit) := by
  have hoperand : ∀ l, (operand e).Tracks limit l fun a m =>
      m = l.settle ∧ a.Bounded limit l.depth :=
    fun l => operand_settles (S := fun _ => True) he l trivial
  have hmono : ∀ {d d' : Nat} {a : Expr Lexeme}, d ≤ d' → a.Bounded limit d' →
      a.Bounded limit d := fun hle ha => Nat.le_trans (Nat.add_le_add_right hle _) ha
  have hmore := operation_settles hoperand (fun _ _ => run_operand_star) hmono
  have hchain : (Expr.ofChain <$> operand e).Settles limit Levels.IsSettled fun d f =>
      ∀ more, (∀ next ∈ more, next.2.Bounded limit d) → (f more).Bounded limit d :=
    (operand_settles he).map fun _ _ _ hfirst _ hmore => Expr.bounded_ofChain hfirst hmore
  exact rule (hchain.seq hmore.many) _

theorem ternary_settles (he : e.Settles limit Levels.IsSettled (Expr.Bounded limit)) :
    (ternary e).Settles limit Levels.IsSettled (Expr.Bounded limit) := by
  have hquestion : (symbol "?").Settles limit Levels.IsSettled fun _ _ => True :=
    symbol_settles (by decide) rfl
  have hcolon : (symbol ":").Settles limit Levels.IsSettled fun _ _ => True :=
    symbol_settles (by decide) rfl
  have hbranches : (Prod.mk <$> (symbol "?" *> e) <*> (symbol ":" *> e)).Settles limit
      Levels.IsSettled fun d branches =>
        branches.1.Bounded limit d ∧ branches.2.Bounded limit d :=
    ((hquestion.seqRight he).map fun _ _ _ ht _ hf => ⟨ht, hf⟩).seq (hcolon.seqRight he)
  refine rule (located (((binary_settles he).map ?_).seq hbranches.optional)) _
  intro d cond _ hcond branches hb loc
  cases branches with
  | none => exact hcond
  | some branches =>
    obtain ⟨ht, hf⟩ := hb branches rfl
    exact add_max_le hcond (add_max_le ht hf)

theorem assignment_settles (he : e.Settles limit Levels.IsSettled (Expr.Bounded limit)) :
    (assignment e).Settles limit Levels.IsSettled (Expr.Bounded limit) := by
  have hassign : (Parser.word Word.assignOp).Settles limit Levels.IsSettled fun _ _ => True :=
    Word.plain_assignOp.settles
  refine rule (located (((ident_settles.map ?_).seqLeft (hassign.rule _)).seq he)) _
  intro d target _ _ value hvalue loc
  exact hvalue

theorem expr_settles (n : Nat) : (expr n).Settles limit Levels.IsSettled (Expr.Bounded limit) := by
  induction n with
  | zero =>
    intro l _ c a d _ _ hrun
    cases hrun
  | succ n ih => exact rule (orElse (assignment_settles ih) (ternary_settles ih)) _

-- ---------------------------------------------------------------------------
-- Statements of a quiet text
-- ---------------------------------------------------------------------------

theorem commaList_settles {α : Type} {P : Nat → α → Prop} {p : Parser α}
    (hp : p.Settles limit Levels.IsSettled P) :
    (commaList p).Settles limit Levels.IsSettled fun d as => ∀ a ∈ as, P d a := by
  have hcomma : (symbol ",").Settles limit Levels.IsSettled fun _ _ => True :=
    symbol_settles (by decide) rfl
  have hfirst : (List.cons <$> p).Settles limit Levels.IsSettled fun d f =>
      ∀ more, (∀ a ∈ more, P d a) → ∀ a ∈ f more, P d a :=
    hp.map fun _ _ _ ha _ hmore => List.forall_mem_cons.mpr ⟨ha, hmore⟩
  exact hfirst.seq (hcomma.seqRight hp).many

theorem typeName_settles : typeName.Settles limit S fun _ _ => True := by
  have hkeyword : ∀ (k : Keyword) (ty : Ty),
      ((fun _ => ty) <$> keyword k).Settles limit S fun _ _ => True :=
    fun k _ => (keyword_settles k).map fun _ _ _ _ => trivial
  exact rule (orElse (hkeyword .int _) <| orElse (hkeyword .float _) <|
    orElse (hkeyword .bool _) (hkeyword .string _)) _

theorem semicolon_settles : (symbol ";").Settles limit S fun _ _ => True :=
  symbol_settles (by decide) rfl

theorem condition_settles (he : e.Settles limit Levels.IsSettled (Expr.Bounded limit)) :
    (condition e).Settles limit S (Expr.Bounded limit) := by
  refine closed_settles (.inl rfl) fun l => ?_
  refine (opened_tracks (.inl rfl) he l).mono ?_
  rintro cond m ⟨hm, hcond⟩
  refine ⟨hm, ?_⟩
  have hcond : l.depth + 1 + cond.nesting 1 ≤ limit := hcond
  show l.depth + cond.nesting 1 ≤ limit
  omega

variable {s : Parser (Stmt Lexeme)}

theorem block_settles (hs : s.Settles limit Levels.IsSettled (Stmt.Bounded limit)) :
    (block s).Settles limit S (Stmt.Bounded limit) := by
  have hbody : (Parser.many s).Settles limit Levels.IsSettled fun d body =>
      d + Stmt.nestingAll body 1 ≤ limit := by
    intro l hl c body d hready hsafe hrun
    obtain ⟨m, ⟨hm, hbody⟩, hd⟩ := hs.many l hl c body d hready hsafe hrun
    exact ⟨m, ⟨hm, Stmt.nestingAll_le hsafe.depth_le hbody⟩, hd⟩
  refine rule (located (closed_settles (.inr rfl) fun l => ?_)) _
  refine (opened_tracks (.inr rfl) hbody l).map ?_
  rintro body m ⟨hm, hbody⟩
  refine ⟨hm, fun loc => ?_⟩
  show l.depth + (Stmt.nestingAll body 1 + 1) ≤ limit
  omega

theorem write_settles (he : e.Settles limit Levels.IsSettled (Expr.Bounded limit)) :
    (write e).Settles limit Levels.IsSettled (Stmt.Bounded limit) := by
  have hexprs := (keyword_settles .write).seqRight (commaList_settles he)
  refine rule (located ((hexprs.map ?_).seqLeft semicolon_settles)) _
  intro d exprs hd hexprs loc
  exact Expr.nestingAll_le hd hexprs

theorem ifStmt_settles (he : e.Settles limit Levels.IsSettled (Expr.Bounded limit))
    (hs : s.Settles limit Levels.IsSettled (Stmt.Bounded limit)) :
    (ifStmt e s).Settles limit Levels.IsSettled (Stmt.Bounded limit) := by
  have hcond := (keyword_settles .if).seqRight (condition_settles he)
  have helse := ((keyword_settles .else).seqRight hs).optional
  refine rule (located (((hcond.map ?_).seq hs).seq helse)) _
  intro d cond _ hcond onTrue htrue onFalse hfalse loc
  cases onFalse with
  | none => exact add_max_le hcond htrue
  | some onFalse => exact add_max_le hcond (add_max_le htrue (hfalse onFalse rfl))

theorem whileDo_settles (he : e.Settles limit Levels.IsSettled (Expr.Bounded limit))
    (hs : s.Settles limit Levels.IsSettled (Stmt.Bounded limit)) :
    (whileDo e s).Settles limit Levels.IsSettled (Stmt.Bounded limit) := by
  have hcond := (keyword_settles .while).seqRight (condition_settles he)
  refine rule (located ((hcond.map ?_).seq hs)) _
  intro d cond _ hcond body hbody loc
  exact add_max_le hcond hbody

theorem doWhile_settles (he : e.Settles limit Levels.IsSettled (Expr.Bounded limit))
    (hs : s.Settles limit Levels.IsSettled (Stmt.Bounded limit)) :
    (doWhile e s).Settles limit Levels.IsSettled (Stmt.Bounded limit) := by
  have hbody := (keyword_settles .do).seqRight hs
  have hcond := (keyword_settles .while).seqRight (condition_settles he)
  refine rule (located (((hbody.map ?_).seq hcond).seqLeft semicolon_settles)) _
  intro d body _ hbody cond hcond loc
  exact add_max_le hbody hcond

theorem statement_settles (n : Nat) :
    (statement n).Settles limit Levels.IsSettled (Stmt.Bounded limit) := by
  induction n with
  | zero =>
    intro l _ c a d _ _ hrun
    cases hrun
  | succ n ih =>
    have he : (expr (n + 1)).Settles limit Levels.IsSettled (Expr.Bounded limit) :=
      expr_settles (n + 1)
    have hnames : (commaList ident).Settles limit Levels.IsSettled _ :=
      commaList_settles ident_settles
    have hempty : empty.Settles limit Levels.IsSettled (Stmt.Bounded limit) := by
      refine rule (located (semicolon_settles.map ?_)) _
      exact fun _ _ hd _ _ => hd
    have hdeclaration : declaration.Settles limit Levels.IsSettled (Stmt.Bounded limit) := by
      refine rule (located (((typeName_settles.map ?_).seq hnames).seqLeft semicolon_settles)) _
      exact fun _ _ hd _ _ _ _ => hd
    have hread : read.Settles limit Levels.IsSettled (Stmt.Bounded limit) := by
      have hnames := (keyword_settles .read).seqRight hnames
      refine rule (located ((hnames.map ?_).seqLeft semicolon_settles)) _
      exact fun _ _ hd _ _ => hd
    have hexpression : (expression (expr (n + 1))).Settles limit Levels.IsSettled
        (Stmt.Bounded limit) :=
      rule (located ((he.map fun _ _ _ he _ => he).seqLeft semicolon_settles)) _
    exact orElse hempty <| orElse (block_settles ih) <| orElse hdeclaration <| orElse hread <|
      orElse (write_settles he) <| orElse (ifStmt_settles he ih) <|
      orElse (whileDo_settles he ih) <| orElse (doWhile_settles he ih) hexpression

/-- The scan bounds the levels in the tree of a quiet text. -/
theorem program_nesting {source : List Char} {body : List (Stmt Lexeme)}
    (hcheck : Nesting.check limit source = none) (hquiet : Nesting.quiet .code source)
    (h : recognize source = some body) : Stmt.nestingAll body 1 ≤ limit := by
  obtain ⟨⟨body, d⟩, hrun, rfl⟩ := Option.map_eq_some_iff.mp h
  obtain ⟨c, _, hrun, -⟩ := Parser.run_seqLeft hrun
  obtain ⟨f, start, body', hf, hrun, rfl⟩ := Parser.run_seq hrun
  cases hf
  have hsafe : Safe limit {} source := ⟨Nat.zero_le _, ⟨_, hcheck⟩, hquiet⟩
  obtain ⟨m, ⟨-, hbody⟩, -⟩ :=
    (statement_settles _).many {} rfl _ body' c (Cursor.ready_skipGap _) hsafe.gap hrun
  have hle := Stmt.nestingAll_le (Nat.zero_le limit) hbody
  rwa [Nat.zero_add] at hle

end Grammar

-- ---------------------------------------------------------------------------
-- Resolving
-- ---------------------------------------------------------------------------

/-- A tree nests as the tree that it was resolved from, and where unary operators
do not count it stays within the limit. -/
structure Resolved (limit depth : Nat) (before after : Nat → Nat) : Prop where
  same : after = before
  within : depth + after 0 ≤ limit

namespace Resolved

variable {limit depth : Nat} {n n' m m' : Nat → Nat}

theorem leaf (h : depth ≤ limit) : Resolved limit depth (fun _ => 0) (fun _ => 0) :=
  ⟨rfl, h⟩

theorem max (hn : Resolved limit depth n n') (hm : Resolved limit depth m m') :
    Resolved limit depth (fun w => Max.max (n w) (m w)) (fun w => Max.max (n' w) (m' w)) := by
  obtain ⟨rfl, hn⟩ := hn
  obtain ⟨rfl, hm⟩ := hm
  exact ⟨rfl, add_max_le hn hm⟩

/-- Parentheses and blocks count. -/
theorem level (h : Resolved limit (depth + 1) n n') :
    Resolved limit depth (fun w => n w + 1) (fun w => n' w + 1) := by
  obtain ⟨rfl, h⟩ := h
  refine ⟨rfl, ?_⟩
  show depth + (n' 0 + 1) ≤ limit
  omega

theorem sign (h : Resolved limit depth n n') :
    Resolved limit depth (fun w => n w + w) (fun w => n' w + w) := by
  obtain ⟨rfl, h⟩ := h
  exact ⟨rfl, h⟩

/-- The levels that only resolving counts are left out. -/
theorem lift (h : Resolved limit (depth + 1) n n') : Resolved limit depth n n' := by
  obtain ⟨rfl, h⟩ := h
  refine ⟨rfl, ?_⟩
  omega

end Resolved

variable {limit : Nat}

theorem Expr.resolve_resolved (e : Expr Lexeme) {depth : Nat} (hdepth : depth ≤ limit) :
    Gives (e.resolve limit depth) fun r => Resolved limit depth e.nesting r.nesting := by
  induction e generalizing depth with
  | literal loc lexeme =>
    rw [Expr.resolve]
    split
    · exact .ok (.leaf hdepth)
    · intro r hr
      cases hr
  | name loc x => exact .ok (.leaf hdepth)
  | group loc inner ih =>
    exact (Gives.nested_of_lt loc ih).bind fun _ hinner => .ok hinner.level
  | unary loc op operand ih => exact (ih hdepth).bind fun _ hoperand => .ok hoperand.sign
  | binary loc op left right ihl ihr =>
    refine (ihl hdepth).bind fun _ hleft => ?_
    exact (ihr hdepth).bind fun _ hright => .ok (hleft.max hright)
  | assign loc target value ih =>
    exact (Gives.nested_of_lt _ ih).bind fun _ hvalue => .ok hvalue.lift
  | ternary loc cond onTrue onFalse ihc iht ihf =>
    refine (ihc hdepth).bind fun _ hcond => ?_
    have hbranches : depth < limit → Gives (onTrue.resolve limit (depth + 1) >>= fun t =>
        onFalse.resolve limit (depth + 1) >>= fun f => return (t, f)) fun branches =>
        Resolved limit (depth + 1) onTrue.nesting branches.1.nesting ∧
          Resolved limit (depth + 1) onFalse.nesting branches.2.nesting :=
      fun hlt => (iht hlt).bind fun _ ht => (ihf hlt).bind fun _ hf => .ok ⟨ht, hf⟩
    exact (Gives.nested_of_lt loc hbranches).bind fun _ hb =>
      .ok (hcond.max (hb.1.lift.max hb.2.lift))

theorem Expr.resolve_resolvedAll (exprs : List (Expr Lexeme)) {depth : Nat}
    (hdepth : depth ≤ limit) :
    Gives (exprs.mapM (Expr.resolve limit depth)) fun rs =>
      Resolved limit depth (Expr.nestingAll exprs) (Expr.nestingAll rs) := by
  induction exprs with
  | nil => exact .ok (.leaf hdepth)
  | cons e rest ih =>
    rw [List.mapM_cons]
    refine (e.resolve_resolved hdepth).bind fun _ he => ?_
    exact ih.bind fun _ hrest => .ok (he.max hrest)

mutual

theorem Stmt.resolve_resolved (s : Stmt Lexeme) {depth : Nat} (hdepth : depth ≤ limit) :
    Gives (s.resolve limit depth) fun r => Resolved limit depth s.nesting r.nesting := by
  cases s with
  | empty loc => exact .ok (.leaf hdepth)
  | declaration loc ty names => exact .ok (.leaf hdepth)
  | expression loc e => exact (e.resolve_resolved hdepth).bind fun _ he => .ok he
  | read loc names => exact .ok (.leaf hdepth)
  | write loc exprs =>
    exact (Expr.resolve_resolvedAll exprs hdepth).bind fun _ hexprs => .ok hexprs
  | block loc body =>
    have hbody : depth < limit → _ := fun hlt => Stmt.resolveAll_resolved body hlt
    exact (Gives.nested_of_lt loc hbody).bind fun _ hbody => .ok hbody.level
  | ifThen loc cond onTrue =>
    refine (cond.resolve_resolved hdepth).bind fun _ hcond => ?_
    have htrue : depth < limit → _ := fun hlt => Stmt.resolve_resolved onTrue hlt
    exact (Gives.nested_of_lt _ htrue).bind fun _ htrue => .ok (hcond.max htrue.lift)
  | ifElse loc cond onTrue onFalse =>
    refine (cond.resolve_resolved hdepth).bind fun _ hcond => ?_
    have htrue : depth < limit → _ := fun hlt => Stmt.resolve_resolved onTrue hlt
    have hfalse : depth < limit → _ := fun hlt => Stmt.resolve_resolved onFalse hlt
    refine (Gives.nested_of_lt _ htrue).bind fun _ htrue => ?_
    exact (Gives.nested_of_lt _ hfalse).bind fun _ hfalse =>
      .ok (hcond.max (htrue.lift.max hfalse.lift))
  | whileDo loc cond body =>
    refine (cond.resolve_resolved hdepth).bind fun _ hcond => ?_
    have hbody : depth < limit → _ := fun hlt => Stmt.resolve_resolved body hlt
    exact (Gives.nested_of_lt _ hbody).bind fun _ hbody => .ok (hcond.max hbody.lift)
  | doWhile loc body cond =>
    have hbody : depth < limit → _ := fun hlt => Stmt.resolve_resolved body hlt
    refine (Gives.nested_of_lt _ hbody).bind fun _ hbody => ?_
    exact (cond.resolve_resolved hdepth).bind fun _ hcond => .ok (hbody.lift.max hcond)

theorem Stmt.resolveAll_resolved (body : List (Stmt Lexeme)) {depth : Nat}
    (hdepth : depth ≤ limit) :
    Gives (Stmt.resolveAll limit depth body) fun rs =>
      Resolved limit depth (Stmt.nestingAll body) (Stmt.nestingAll rs) := by
  cases body with
  | nil => exact .ok (.leaf hdepth)
  | cons s rest =>
    refine (Stmt.resolve_resolved s hdepth).bind fun _ hs => ?_
    exact (Stmt.resolveAll_resolved rest hdepth).bind fun _ hrest => .ok (hs.max hrest)

end

-- ---------------------------------------------------------------------------
-- Parsed programs
-- ---------------------------------------------------------------------------

/-- **The limit on nesting.** A parsed program nests parentheses and blocks within
the limit. If its text is quiet, so do parentheses, blocks and unary operators
taken together. -/
theorem Program.nesting_le_limit {source : String} {program : Program}
    (h : parseWithin limit source = .ok program) :
    Stmt.nestingAll program 0 ≤ limit ∧
      (Nesting.quiet .code source.toList → Stmt.nestingAll program 1 ≤ limit) := by
  unfold parseWithin at h
  split at h
  · cases h
  · next hcheck =>
    split at h
    · cases h
    · next body hbody =>
      have hresolved := Stmt.resolveAll_resolved body (Nat.zero_le limit) program h
      have hwithin := hresolved.within
      rw [Nat.zero_add] at hwithin
      refine ⟨hwithin, fun hquiet => ?_⟩
      rw [hresolved.same]
      exact Grammar.program_nesting hcheck hquiet hbody

/-- A block, a sign, parentheses and another sign take up four levels, behind two
comments that end with carriage returns. -/
theorem Program.nesting_reaches_limit :
    ∃ program, parseWithin 4 "// a\r // b\r\n\x7b x = -(!y); \x7d" = .ok program ∧
      Stmt.nestingAll program 0 ≤ 4 ∧ Stmt.nestingAll program 1 ≤ 4 ∧
      Stmt.nestingAll program 1 = 4 := by
  obtain ⟨program, hparse, hfour⟩ :
      ∃ program, parseWithin 4 "// a\r // b\r\n\x7b x = -(!y); \x7d" = .ok program ∧
        Stmt.nestingAll program 1 = 4 := exists_ok_of_toOption (by decide +kernel)
  obtain ⟨hlevels, hall⟩ := Program.nesting_le_limit hparse
  have hquiet : Nesting.quiet .code "// a\r // b\r\n\x7b x = -(!y); \x7d".toList := by
    decide +kernel
  exact ⟨program, hparse, hlevels, hall hquiet, hfour⟩

/-- The text behind a lone carriage return is a comment to the scan and code to
the grammar, so that two signs pass under a limit of one level. -/
theorem Program.nesting_hidden_by_comment :
    ∃ program, parseWithin 1 "//\r--x;" = .ok program ∧ 1 < Stmt.nestingAll program 1 := by
  obtain ⟨program, hparse, htwo⟩ : ∃ program, parseWithin 1 "//\r--x;" = .ok program ∧
      Stmt.nestingAll program 1 = 2 := exists_ok_of_toOption (by decide +kernel)
  refine ⟨program, hparse, ?_⟩
  rw [htwo]
  exact Nat.lt_succ_self 1

end Cairn
