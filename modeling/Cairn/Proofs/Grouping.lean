import Cairn.Proofs.Sufficiency
import Cairn.Proofs.Terminals

/-!
# Cairn — how the parts of a parsed program are grouped

The grammar reads a chain of operands from left to right and puts each operator
at its place as it comes along. In the tree that results, no operand is held
together by an operator that binds more loosely than the one it belongs to, and
operators of one level group to the left. Assignments and choices are operands
in parentheses only, and an `else` belongs to the nearest `if` that can have it.

That last rule is not about the text that was read but about what could have
been: an `if` stays without `else` only where none can be read behind it, within
any bound.

## Main definitions

* `BinaryOp.levels` — the binary operators, from the loosest level on.
* `Expr.Grouped`, `Stmt.Grouped` — trees whose parts are grouped in this way.

## Main statements

* `Expr.GroupedFrom.attach` — an operator is put at its place.
* `Grammar.statement_groups` — what the grammar reads.
* `Program.grouped_of_parse` — parsed programs.
-/

namespace Cairn

-- ---------------------------------------------------------------------------
-- Grouped trees
-- ---------------------------------------------------------------------------

/-- The binary operators by how tightly they bind, from the loosest level on. -/
def BinaryOp.levels : List (List BinaryOp) :=
  [[.or], [.and], [.eq, .ne], [.lt, .gt], [.add, .sub, .concat], [.mul, .div, .mod]]

theorem BinaryOp.mem_levels (op : BinaryOp) :
    ∃ level, BinaryOp.levels[op.precedence]? = some level ∧ op ∈ level := by
  cases op <;> exact ⟨_, rfl, by decide⟩

theorem BinaryOp.precedence_lt (op : BinaryOp) : op.precedence < 6 := by
  cases op <;> decide

section

variable {L : Type}

/-- Operands hold together at least as tightly as the operator they belong to,
and more tightly on its right. A unary operator applies to a literal, a name, an
expression in parentheses or another unary operator, and a condition is neither an
assignment nor a choice. -/
def Expr.Grouped : Expr L → Prop
  | .literal .. => True
  | .name .. => True
  | .group _ inner => inner.Grouped
  | .unary _ _ operand => 7 ≤ operand.tightness ∧ operand.Grouped
  | .binary _ op left right =>
    (op.precedence + 1 ≤ left.tightness ∧ left.Grouped) ∧
      (op.precedence + 2 ≤ right.tightness ∧ right.Grouped)
  | .assign _ _ value => value.Grouped
  | .ternary _ cond onTrue onFalse =>
    (1 ≤ cond.tightness ∧ cond.Grouped) ∧ onTrue.Grouped ∧ onFalse.Grouped

/-- The same of what stands in the statement itself. The branch in front of an
`else` does not end in an `if` that the `else` would be read with. -/
def Stmt.IsGrouped : Stmt L → Prop
  | .expression _ e => e.Grouped
  | .write _ exprs => ∀ e ∈ exprs, e.Grouped
  | .ifThen _ cond _ => cond.Grouped
  | .ifElse _ cond onTrue _ => cond.Grouped ∧ ¬ onTrue.EndsOpen
  | .whileDo _ cond _ => cond.Grouped
  | .doWhile _ _ cond => cond.Grouped
  | _ => True

/-- The statement is grouped, with all that is in it. -/
def Stmt.Grouped : Stmt L → Prop :=
  Stmt.All Stmt.IsGrouped

-- ---------------------------------------------------------------------------
-- Chains of operators
-- ---------------------------------------------------------------------------

/-- The expression is grouped and can be an operand where level `n` is asked for. -/
def Expr.GroupedFrom (n : Nat) (e : Expr L) : Prop :=
  n ≤ e.tightness ∧ e.Grouped

/-- The new operator ties the whole together where it is the loosest. -/
theorem Expr.tightness_attach (op : BinaryOp) (right : Expr L) {e : Expr L} (h : 1 ≤ e.tightness) :
    (Expr.attach op right e).tightness = min e.tightness (op.precedence + 1) := by
  have hop := op.precedence_lt
  cases e with
  | binary loc op' left right' =>
    rw [Expr.attach]
    split <;> simp only [Expr.tightness] <;> omega
  | assign loc target value => exact absurd h (by simp [Expr.tightness])
  | ternary loc cond onTrue onFalse => exact absurd h (by simp [Expr.tightness])
  | _ =>
    simp only [Expr.attach, Expr.tightness]
    omega

/-- **An operator is put at its place**: behind a chain, with an operand on its
right, it gives a chain again. -/
theorem Expr.GroupedFrom.attach {op : BinaryOp} {right e : Expr L} (he : e.GroupedFrom 1)
    (hright : right.GroupedFrom 7) : (Expr.attach op right e).GroupedFrom 1 := by
  refine ⟨by rw [Expr.tightness_attach op right he.1]; have := he.1; omega, ?_⟩
  have hop := op.precedence_lt
  have hlast : right.GroupedFrom (op.precedence + 2) := ⟨by have := hright.1; omega, hright.2⟩
  obtain ⟨htight, hgrouped⟩ := he
  induction e with
  | binary loc op' left right' ihl ihr =>
    rw [Expr.attach]
    split
    · obtain ⟨hleft, htight', hright'⟩ := hgrouped
      have hfrom : 1 ≤ right'.tightness := by omega
      refine ⟨hleft, ?_, ihr hfrom hright'⟩
      rw [Expr.tightness_attach op right hfrom]
      omega
    · refine ⟨⟨?_, hgrouped⟩, hlast⟩
      simp only [Expr.tightness]
      omega
  | assign loc target value => exact absurd htight (by simp [Expr.tightness])
  | ternary loc cond onTrue onFalse => exact absurd htight (by simp [Expr.tightness])
  | _ => exact ⟨⟨by simp only [Expr.tightness]; omega, hgrouped⟩, hlast⟩

theorem Expr.GroupedFrom.ofChain {first : Expr L} {more : List (BinaryOp × Expr L)}
    (hfirst : first.GroupedFrom 1) (hmore : ∀ next ∈ more, next.2.GroupedFrom 7) :
    (Expr.ofChain first more).GroupedFrom 1 := by
  induction more generalizing first with
  | nil => exact hfirst
  | cons next more ih =>
    obtain ⟨hnext, hrest⟩ := List.forall_mem_cons.mp hmore
    exact ih (hfirst.attach hnext) hrest

theorem Expr.GroupedFrom.ofOperand (ops : List (UnaryOp × Location)) {operand : Expr L}
    (h : operand.GroupedFrom 7) : (Expr.ofOperand ops operand).GroupedFrom 7 := by
  induction ops with
  | nil => exact h
  | cons op ops ih => exact ⟨Nat.le_refl 7, ih⟩

end

-- ---------------------------------------------------------------------------
-- The grammar of expressions
-- ---------------------------------------------------------------------------

namespace Grammar

open Parser.Yields

variable {e : Parser (Expr Lexeme)}

theorem literal_groups (r : Rule) (value : Parser Lexeme) :
    (literal r value).Yields (Expr.GroupedFrom 7) :=
  rule (located ((any value).map fun _ _ _ => ⟨Nat.le_refl 7, trivial⟩)) r

theorem operand_groups (he : e.Yields Expr.Grouped) :
    (operand e).Yields (Expr.GroupedFrom 7) := by
  have hname : name.Yields (Expr.GroupedFrom 7) :=
    (any ident).map fun _ _ => ⟨Nat.le_refl 7, trivial⟩
  have hgroup : (group e).Yields (Expr.GroupedFrom 7) :=
    rule (located (seqLeft ((seqRight _ he).map fun _ hinner _ => ⟨Nat.le_refl 7, hinner⟩) _)) _
  have hprimary : (primary e).Yields (Expr.GroupedFrom 7) :=
    orElse (literal_groups _ _) <| orElse (literal_groups _ _) <| orElse (literal_groups _ _) <|
      orElse (literal_groups _ _) <| orElse hname hgroup
  exact seq ((any _).map fun ops _ _ hoperand => hoperand.ofOperand ops) hprimary

theorem binary_groups (he : e.Yields Expr.Grouped) : (binary e).Yields (Expr.GroupedFrom 1) := by
  have hoperand := operand_groups he
  have hmore : (Prod.mk <$> anyBinaryOp <*> operand e).Yields fun next => next.2.GroupedFrom 7 :=
    seq ((any _).map fun _ _ _ h => h) hoperand
  have hchain : (Expr.ofChain <$> operand e).Yields fun f => ∀ more,
      (∀ next ∈ more, next.2.GroupedFrom 7) → (f more).GroupedFrom 1 := by
    refine hoperand.map fun first hfirst more hmore => ?_
    have hfrom : first.GroupedFrom 1 := ⟨Nat.le_trans (by decide) hfirst.1, hfirst.2⟩
    exact hfrom.ofChain hmore
  exact rule (seq hchain hmore.many) _

theorem ternary_groups (he : e.Yields Expr.Grouped) : (ternary e).Yields Expr.Grouped := by
  have hbranches : (Prod.mk <$> (symbol "?" *> e) <*> (symbol ":" *> e)).Yields fun branches =>
      branches.1.Grouped ∧ branches.2.Grouped :=
    seq ((seqRight _ he).map fun _ ht _ hf => ⟨ht, hf⟩) (seqRight _ he)
  refine rule (located (seq ((binary_groups he).map fun cond hcond branches hb loc => ?_)
    hbranches.optional)) _
  cases branches with
  | none => exact hcond.2
  | some branches => exact ⟨hcond, hb branches rfl⟩

theorem assignment_groups (he : e.Yields Expr.Grouped) : (assignment e).Yields Expr.Grouped :=
  rule (located (seq (seqLeft ((any ident).map fun _ _ _ hvalue _ => hvalue) _) he)) _

/-- **Expressions are grouped** as they are read. -/
theorem expr_groups (n : Nat) : (expr n).Yields Expr.Grouped := by
  induction n with
  | zero =>
    intro c x d h
    cases h
  | succ n ih => exact rule (orElse (assignment_groups ih) (ternary_groups ih)) _

-- ---------------------------------------------------------------------------
-- The grammar of statements
-- ---------------------------------------------------------------------------

/-- Behind the gap at the cursor no `else` is read with its statement, whatever
the bound. -/
def NoElseAt (c : Cursor) : Prop :=
  ∀ n, c.skipGap.rest.length < n → (keyword .else *> statement n).run c.skipGap = none

/-- In a text of fewer than `n` characters, the parser reads grouped statements
only, and those that end in an `if` without `else` only where none can follow. -/
def GroupsBelow (n : Nat) (p : Parser (Stmt Lexeme)) : Prop :=
  p.Finds fun s c d => c.rest.length < n → s.Grouped ∧ (s.EndsOpen → NoElseAt d)

open Cairn.Parser

variable {s : Parser (Stmt Lexeme)} {n : Nat}

/-- A failure at one bound is a failure at all of them. -/
theorem noElseAt_of_refused {c : Cursor} (hlt : c.skipGap.rest.length < n)
    (h : (keyword .else *> statement n).run c.skipGap = none) : NoElseAt c := by
  intro m hm
  have hinner : AgreesBelow c.skipGap.rest.length (statement m) (statement n) :=
    statement_agrees (by omega) (by omega)
  have hboth := AgreesBelow.behind (keyword_advances .else) hinner
  rw [hboth c.skipGap c.ready_skipGap (Nat.lt_succ_self _), h]

/-- Statements that contain no others. -/
theorem groupsBelow_of_yields {p : Parser (Stmt Lexeme)}
    (h : p.Yields fun s => s.Grouped ∧ ¬ s.EndsOpen) : GroupsBelow n p := by
  intro c x d _ hrun _
  obtain ⟨hgrouped, hclosed⟩ := h c x d hrun
  exact ⟨hgrouped, fun hopen => absurd hopen hclosed⟩

theorem allOf_of_repeats (ht : s.Takes 0) (hs : GroupsBelow n s) {body : List (Stmt Lexeme)}
    {c d : Cursor} (hlt : c.skipGap.rest.length < n) (h : s.Repeats body c d) :
    Stmt.AllOf Stmt.IsGrouped body := by
  induction body generalizing c with
  | nil => exact trivial
  | cons first rest ih =>
    obtain ⟨c₁, hfirst, hrest⟩ := h
    have htakes := ht _ _ _ c.ready_skipGap hfirst
    exact ⟨(hs _ _ _ c.ready_skipGap hfirst hlt).1, ih (by omega) hrest⟩

theorem block_groups (ht : s.Takes 1) (hs : GroupsBelow n s) : GroupsBelow (n + 1) (block s) := by
  intro c x d hc h hlt
  obtain ⟨f, hf, rfl⟩ := run_located h
  obtain ⟨c₁, b, hfront, hright⟩ := run_seqLeft hf
  obtain ⟨body, hopened, rfl⟩ := run_map hfront
  obtain ⟨c₂, a, hleft, hbody⟩ := run_seqRight hopened
  have htakes := (symbol_advances (by decide)).takes _ _ _ hc hleft
  have hrounds := repeats_of_many c₂.ready_skipGap hbody
  refine ⟨allOf_of_repeats (ht.mono (Nat.zero_le 1)) hs ?_ hrounds, False.elim⟩
  rw [Cursor.skipGap_skipGap]
  omega

theorem headed_groups (w : Keyword) (hyields : e.Yields Expr.Grouped) :
    (keyword w *> condition e).Yields Expr.Grouped :=
  seqRight _ (seqLeft (seqRight _ hyields) _)

/-- **An `else` belongs to the nearest `if`.** The one without it comes to stand
only where no `else` can be read, so that none is read there further out. -/
theorem ifStmt_groups (he : FindsExpr e) (hyields : e.Yields Expr.Grouped)
    (hs : GroupsBelow n (statement n)) : GroupsBelow (n + 1) (ifStmt e (statement n)) := by
  intro c x d hc h hlt
  obtain ⟨f, hf, rfl⟩ := run_located h
  obtain ⟨g, c₁, other, hg, hother, rfl⟩ := run_seq hf
  obtain ⟨g', c₂, onTrue, hg', htrue, rfl⟩ := run_seq hg
  obtain ⟨cond, hhead, rfl⟩ := run_map hg'
  have hcond := headed_groups .if hyields _ _ _ hhead
  have hfirst := headed_takes .if he _ _ _ hc hhead
  obtain ⟨hontrue, hopen⟩ := hs _ _ _ c₂.ready_skipGap htrue (by omega)
  have hsecond := statement_takes n _ _ _ c₂.ready_skipGap htrue
  rcases run_optional hother with ⟨onFalse, rfl, hfalse⟩ | ⟨rfl, rfl, hrefused⟩
  · obtain ⟨c₃, word, helse, hstmt⟩ := run_seqRight hfalse
    have hthird := (keyword_advances .else).takes _ _ _ c₁.ready_skipGap helse
    obtain ⟨honfalse, hlast⟩ := hs _ _ _ c₃.ready_skipGap hstmt (by omega)
    refine ⟨⟨⟨hcond, fun hends => ?_⟩, hontrue, honfalse⟩, hlast⟩
    -- an `if` at the end of this branch would have had the `else` that was just read
    rw [hopen hends n (by omega)] at hfalse
    cases hfalse
  · refine ⟨⟨hcond, hontrue⟩, fun _ => ?_⟩
    rw [← c₁.skipGap_skipGap] at hrefused
    exact noElseAt_of_refused (by rw [c₁.skipGap_skipGap]; omega) hrefused

theorem whileDo_groups (he : FindsExpr e) (hyields : e.Yields Expr.Grouped)
    (hs : GroupsBelow n s) : GroupsBelow (n + 1) (whileDo e s) := by
  intro c x d hc h hlt
  obtain ⟨f, hf, rfl⟩ := run_located h
  obtain ⟨g, c₁, body, hg, hbody, rfl⟩ := run_seq hf
  obtain ⟨cond, hhead, rfl⟩ := run_map hg
  have htakes := headed_takes .while he _ _ _ hc hhead
  obtain ⟨hgrouped, hopen⟩ := hs _ _ _ c₁.ready_skipGap hbody (by omega)
  exact ⟨⟨headed_groups .while hyields _ _ _ hhead, hgrouped⟩, hopen⟩

theorem doWhile_groups (hyields : e.Yields Expr.Grouped) (hs : GroupsBelow n s) :
    GroupsBelow (n + 1) (doWhile e s) := by
  intro c x d hc h hlt
  obtain ⟨f, hf, rfl⟩ := run_located h
  obtain ⟨c₁, mark, hfront, hmark⟩ := run_seqLeft hf
  obtain ⟨g, c₂, cond, hg, hcond, rfl⟩ := run_seq hfront
  obtain ⟨body, hbody, rfl⟩ := run_map hg
  obtain ⟨c₃, word, hword, hbody⟩ := run_seqRight hbody
  have htakes := (keyword_advances .do).takes _ _ _ hc hword
  obtain ⟨hgrouped, -⟩ := hs _ _ _ c₃.ready_skipGap hbody (by omega)
  exact ⟨⟨headed_groups .while hyields _ _ _ hcond, hgrouped⟩, False.elim⟩

/-- **Statements are grouped** as they are read. -/
theorem statement_groups (n : Nat) : GroupsBelow n (statement n) := by
  induction n with
  | zero =>
    intro c x d _ h
    cases h
  | succ n ih =>
    have he := expr_finds (n + 1)
    have hyields := expr_groups (n + 1)
    have ht := statement_takes n
    have hempty : empty.Yields fun s => s.Grouped ∧ ¬ s.EndsOpen :=
      rule (located ((any _).map fun _ _ _ => ⟨trivial, id⟩)) _
    have hdeclaration : declaration.Yields fun s => s.Grouped ∧ ¬ s.EndsOpen :=
      rule (located (seqLeft (seq ((any _).map fun _ _ _ _ _ => ⟨trivial, id⟩) (any _)) _)) _
    have hread : read.Yields fun s => s.Grouped ∧ ¬ s.EndsOpen :=
      rule (located (seqLeft ((any _).map fun _ _ _ => ⟨trivial, id⟩) _)) _
    have hwrite : (write (expr (n + 1))).Yields fun s => s.Grouped ∧ ¬ s.EndsOpen :=
      rule (located (seqLeft ((seqRight _ (commaList_yields hyields)).map
        fun _ hexprs _ => ⟨hexprs, id⟩) _)) _
    have hexpression : (expression (expr (n + 1))).Yields fun s => s.Grouped ∧ ¬ s.EndsOpen :=
      rule (located (seqLeft (hyields.map fun _ he _ => ⟨he, id⟩) _)) _
    exact (groupsBelow_of_yields hempty).orElse <| (block_groups ht ih).orElse <|
      (groupsBelow_of_yields hdeclaration).orElse <| (groupsBelow_of_yields hread).orElse <|
      (groupsBelow_of_yields hwrite).orElse <| (ifStmt_groups he hyields ih).orElse <|
      (whileDo_groups he hyields ih).orElse <| (doWhile_groups hyields ih).orElse
      (groupsBelow_of_yields hexpression)

theorem program_groups {c d : Cursor} {body : List (Stmt Lexeme)}
    (hlt : c.rest.length < n + 1) (h : (program n).run c = some (body, d)) :
    Stmt.AllOf Stmt.IsGrouped body := by
  obtain ⟨c₁, _, hbody, -⟩ := run_seqLeft h
  obtain ⟨f, c₂, body, hid, hmany, rfl⟩ := run_seq hbody
  cases hid
  have hrounds := repeats_of_many c.ready_skipGap hmany
  have hgap := c.length_skipGap_le
  have ht := (statement_takes (n + 1)).mono (Nat.zero_le 1)
  refine allOf_of_repeats ht (statement_groups (n + 1)) ?_ hrounds
  rw [Cursor.skipGap_skipGap]
  omega

end Grammar

-- ---------------------------------------------------------------------------
-- Resolving
-- ---------------------------------------------------------------------------

section

variable {limit : Nat}

/-- Resolving keeps the groups, and how tightly they hold together. -/
theorem Expr.resolve_grouped {e : Expr Lexeme} (h : e.Grouped) (depth : Nat) :
    Gives (e.resolve limit depth) fun e' => e'.Grouped ∧ e'.tightness = e.tightness := by
  induction e generalizing depth with
  | literal loc lexeme =>
    rw [Expr.resolve]
    split
    · exact .ok ⟨trivial, rfl⟩
    · rintro _ ⟨⟩
  | name loc x => exact .ok ⟨trivial, rfl⟩
  | group loc inner ih =>
    exact (Gives.nested limit depth loc (ih h _)).bind fun _ hinner => .ok ⟨hinner.1, rfl⟩
  | unary loc op operand ih =>
    refine (ih h.2 depth).bind fun _ hoperand => .ok ⟨⟨?_, hoperand.1⟩, rfl⟩
    rw [hoperand.2]
    exact h.1
  | binary loc op left right ihl ihr =>
    refine (ihl h.1.2 depth).bind fun _ hleft => (ihr h.2.2 depth).bind fun _ hright => ?_
    refine .ok ⟨⟨⟨?_, hleft.1⟩, ?_, hright.1⟩, rfl⟩
    · rw [hleft.2]
      exact h.1.1
    · rw [hright.2]
      exact h.2.1
  | assign loc target value ih =>
    exact (Gives.nested limit depth _ (ih h _)).bind fun _ hvalue => .ok ⟨hvalue.1, rfl⟩
  | ternary loc cond onTrue onFalse ihc iht ihf =>
    refine (ihc h.1.2 depth).bind fun cond' hcond => ?_
    have hbranches : Gives (onTrue.resolve limit (depth + 1) >>= fun t =>
        onFalse.resolve limit (depth + 1) >>= fun f => return (t, f)) fun branches =>
        branches.1.Grouped ∧ branches.2.Grouped :=
      (iht h.2.1 _).bind fun _ ht => (ihf h.2.2 _).bind fun _ hf => .ok ⟨ht.1, hf.1⟩
    refine (Gives.nested limit depth loc hbranches).bind fun _ hb => ?_
    refine .ok ⟨⟨⟨?_, hcond.1⟩, hb⟩, rfl⟩
    rw [hcond.2]
    exact h.1.1

mutual

/-- Resolving keeps the groups, and where an `else` could still follow. -/
theorem Stmt.resolve_grouped {s : Stmt Lexeme} (h : s.Grouped) (depth : Nat) :
    Gives (s.resolve limit depth) fun s' => s'.Grouped ∧ (s'.EndsOpen ↔ s.EndsOpen) := by
  cases s with
  | empty loc => exact .ok ⟨trivial, .rfl⟩
  | declaration loc ty names => exact .ok ⟨trivial, .rfl⟩
  | expression loc e => exact (Expr.resolve_grouped h depth).bind fun _ he => .ok ⟨he.1, .rfl⟩
  | read loc names => exact .ok ⟨trivial, .rfl⟩
  | write loc exprs =>
    have hexprs : Gives (exprs.mapM (Expr.resolve limit depth)) fun es => ∀ e ∈ es, e.Grouped :=
      .mapM fun e he e' heq => (Expr.resolve_grouped (h e he) depth e' heq).1
    exact hexprs.bind fun _ hexprs => .ok ⟨hexprs, .rfl⟩
  | block loc body =>
    have hbody := Stmt.resolveAll_grouped h (depth + 1)
    exact (Gives.nested limit depth loc hbody).bind fun _ hbody => .ok ⟨hbody, .rfl⟩
  | ifThen loc cond onTrue =>
    refine (Expr.resolve_grouped h.1 depth).bind fun _ hcond => ?_
    have htrue := Stmt.resolve_grouped h.2 (depth + 1)
    exact (Gives.nested limit depth _ htrue).bind fun _ htrue => .ok ⟨⟨hcond.1, htrue.1⟩, .rfl⟩
  | ifElse loc cond onTrue onFalse =>
    obtain ⟨⟨hcond, hclosed⟩, htrue, hfalse⟩ := h
    refine (Expr.resolve_grouped hcond depth).bind fun _ hcond => ?_
    have htrue := Stmt.resolve_grouped htrue (depth + 1)
    have hfalse := Stmt.resolve_grouped hfalse (depth + 1)
    refine (Gives.nested limit depth _ htrue).bind fun _ htrue => ?_
    refine (Gives.nested limit depth _ hfalse).bind fun _ hfalse => ?_
    exact .ok ⟨⟨⟨hcond.1, fun hopen => hclosed (htrue.2.mp hopen)⟩, htrue.1, hfalse.1⟩, hfalse.2⟩
  | whileDo loc cond body =>
    refine (Expr.resolve_grouped h.1 depth).bind fun _ hcond => ?_
    have hbody := Stmt.resolve_grouped h.2 (depth + 1)
    exact (Gives.nested limit depth _ hbody).bind fun _ hbody => .ok ⟨⟨hcond.1, hbody.1⟩, hbody.2⟩
  | doWhile loc body cond =>
    have hbody := Stmt.resolve_grouped h.2 (depth + 1)
    refine (Gives.nested limit depth _ hbody).bind fun _ hbody => ?_
    exact (Expr.resolve_grouped h.1 depth).bind fun _ hcond => .ok ⟨⟨hcond.1, hbody.1⟩, .rfl⟩

theorem Stmt.resolveAll_grouped {body : List (Stmt Lexeme)}
    (h : Stmt.AllOf Stmt.IsGrouped body) (depth : Nat) :
    Gives (Stmt.resolveAll limit depth body) (Stmt.AllOf Stmt.IsGrouped) := by
  cases body with
  | nil => exact .ok trivial
  | cons s rest =>
    refine (Stmt.resolve_grouped h.1 depth).bind fun _ hs => ?_
    exact (Stmt.resolveAll_grouped h.2 depth).bind fun _ hrest => .ok ⟨hs.1, hrest⟩

end

/-- **A parsed program is grouped.** -/
theorem Program.grouped_of_parse {source : String} {program : Program}
    (h : parseWithin limit source = .ok program) : ∀ s ∈ program, s.Grouped := by
  obtain ⟨body, hbody, hresolve⟩ := exists_of_parseWithin h
  obtain ⟨r, hrun, rfl⟩ := Option.map_eq_some_iff.mp hbody
  have hgrouped := Grammar.program_groups (Nat.lt_succ_self source.toList.length) hrun
  exact Stmt.allOf_iff.mp (Stmt.resolveAll_grouped hgrouped 0 program hresolve)

end

end Cairn
