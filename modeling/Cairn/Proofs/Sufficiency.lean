import Cairn.Proofs.Offsets

/-!
# Cairn — the bounds of the grammar are enough

The parsers of the grammar are indexed by a bound on how deeply expressions and
statements may lie within each other. Whatever lies within something else stands
behind a character of it, so that on a text shorter than both of two bounds the
parsers do the same: they accept the same, give the same tree and stop at the
same place.

This matters because what the grammar tries, and fails at, decides what it does
next. That an `else` was not read within an inner statement, with a smaller
bound, says that it cannot be read further out.

## Main statements

* `Grammar.expr_agrees`, `Grammar.statement_agrees` — any two bounds that are
  larger than the text give the same parser.
-/

namespace Cairn

-- ---------------------------------------------------------------------------
-- How much a parser takes up
-- ---------------------------------------------------------------------------

namespace Cursor

variable {c d : Cursor}

theorem Precedes.length_le (h : c.Precedes d) : d.rest.length ≤ c.rest.length := by
  obtain ⟨cs, hrest, -⟩ := h
  rw [hrest, List.length_append]
  omega

theorem Before.length_lt (h : c.Before d) : d.rest.length < c.rest.length := by
  obtain ⟨⟨cs, hrest, hplace⟩, hlt⟩ := h
  cases cs with
  | nil =>
    rw [offset, offset, hplace] at hlt
    exact absurd hlt (Nat.lt_irrefl _)
  | cons first cs =>
    rw [hrest, List.length_append, List.length_cons]
    omega

theorem length_skipGap_le (c : Cursor) : c.skipGap.rest.length ≤ c.rest.length :=
  c.precedes_skipGap.length_le

end Cursor

namespace Parser

variable {α β : Type}

/-- What the parser reads, with the gap behind it, is at least `j` characters
long. -/
def Takes (p : Parser α) (j : Nat) : Prop :=
  p.Finds fun _ c d => d.skipGap.rest.length + j ≤ c.rest.length

theorem Advances.takes {p : Parser α} (h : p.Advances) : p.Takes 1 := by
  intro c a d _ hrun
  exact (h c a d hrun).skipGap.length_lt

namespace Takes

variable {i j : Nat}

theorem mono {p : Parser α} (h : p.Takes j) (hi : i ≤ j) : p.Takes i := by
  intro c a d hc hrun
  have := h c a d hc hrun
  omega

theorem map {p : Parser α} (h : p.Takes j) (f : α → β) : (f <$> p).Takes j := by
  intro c b d hc hrun
  obtain ⟨a, ha, -⟩ := run_map hrun
  exact h c a d hc ha

theorem seq {p : Parser (α → β)} {q : Parser α} (hp : p.Takes i) (hq : q.Takes j) :
    (p <*> q).Takes (i + j) := by
  intro c b d hc hrun
  obtain ⟨f, c', a, hf, ha, -⟩ := run_seq hrun
  have hfirst := hp c f c' hc hf
  have hsecond := hq c'.skipGap a d c'.ready_skipGap ha
  omega

theorem seqRight {p : Parser α} {q : Parser β} (hp : p.Takes i) (hq : q.Takes j) :
    (p *> q).Takes (i + j) :=
  seq (hp.map _) hq

theorem many {p : Parser α} (hp : p.Takes 0) : p.many.Takes 0 := by
  have hrounds : ∀ (as : List α) (c d : Cursor), p.Repeats as c d →
      d.skipGap.rest.length ≤ c.skipGap.rest.length := by
    intro as
    induction as with
    | nil =>
      rintro c d ⟨⟩
      exact Nat.le_refl _
    | cons a as ih =>
      rintro c d ⟨c₁, hrun, hrest⟩
      have hround := hp c.skipGap a c₁ c.ready_skipGap hrun
      have := ih c₁ d hrest
      omega
  intro c as d hc hrun
  have := hrounds as c d (repeats_of_many hc hrun)
  have := c.length_skipGap_le
  omega

end Takes

-- ---------------------------------------------------------------------------
-- Parsers that agree on short texts
-- ---------------------------------------------------------------------------

/-- On texts of fewer than `k` characters, with no gap in front, the parsers do
the same. -/
def AgreesBelow (k : Nat) (p q : Parser α) : Prop :=
  ∀ c : Cursor, c.Ready → c.rest.length < k → p.run c = q.run c

namespace AgreesBelow

variable {k m j : Nat}

theorem refl (k : Nat) (p : Parser α) : AgreesBelow k p p :=
  fun _ _ _ => rfl

theorem mono {p q : Parser α} (h : AgreesBelow k p q) (hm : m ≤ k) : AgreesBelow m p q :=
  fun c hc hlt => h c hc (Nat.lt_of_lt_of_le hlt hm)

theorem map {p q : Parser α} (h : AgreesBelow k p q) (f : α → β) :
    AgreesBelow k (f <$> p) (f <$> q) := by
  intro c hc hlt
  show (p.run c).map _ = (q.run c).map _
  rw [h c hc hlt]

theorem rule {p q : Parser α} (h : AgreesBelow k p q) (r : Rule) :
    AgreesBelow k (p.rule r) (q.rule r) := h

theorem located {p q : Parser (Location → α)} (h : AgreesBelow k p q) :
    AgreesBelow k p.located q.located := by
  intro c hc hlt
  show (p.run c).map _ = (q.run c).map _
  rw [h c hc hlt]

theorem orElse {p p' q q' : Parser α} (hp : AgreesBelow k p p') (hq : AgreesBelow k q q') :
    AgreesBelow k (p <|> q) (p' <|> q') := by
  intro c hc hlt
  change (Parser.orElse p fun _ => q).run c = (Parser.orElse p' fun _ => q').run c
  simp only [Parser.orElse, hp c hc hlt, hq c hc hlt]

theorem optional {p q : Parser α} (h : AgreesBelow k p q) :
    AgreesBelow k p.optional q.optional := by
  intro c hc hlt
  simp only [Parser.optional, h c hc hlt]

/-- Behind what the first parser takes up, less text is left for the second. -/
theorem seq {p p' : Parser (α → β)} {q q' : Parser α} (hp : AgreesBelow k p p') (ht : p.Takes j)
    (hq : AgreesBelow m q q') (hk : k ≤ m + j) : AgreesBelow k (p <*> q) (p' <*> q') := by
  intro c hc hlt
  change (Parser.seq p fun _ => q).run c = (Parser.seq p' fun _ => q').run c
  simp only [Parser.seq, ← hp c hc hlt]
  split
  · rfl
  · next f d hf =>
    have hlength := ht c f d hc hf
    rw [hq d.skipGap d.ready_skipGap (by omega)]

theorem seqLeft {p p' : Parser α} (hp : AgreesBelow k p p') (q : Parser β) :
    AgreesBelow k (p <* q) (p' <* q) := by
  intro c hc hlt
  change (Parser.seq (p.map _) fun _ => q).run c = (Parser.seq (p'.map _) fun _ => q).run c
  simp only [Parser.seq, Parser.map, hp c hc hlt]

theorem seqRight {p p' : Parser α} {q q' : Parser β} (hp : AgreesBelow k p p') (ht : p.Takes j)
    (hq : AgreesBelow m q q') (hk : k ≤ m + j) : AgreesBelow k (p *> q) (p' *> q') :=
  seq (hp.map _) (ht.map _) hq hk

/-- What stands behind a word. -/
theorem behind {p : Parser α} {q q' : Parser β} (hp : p.Advances) (hq : AgreesBelow k q q') :
    AgreesBelow (k + 1) (p *> q) (p *> q') :=
  seqRight (.refl _ p) hp.takes hq (Nat.le_refl _)

theorem many {p q : Parser α} (h : AgreesBelow k p q) (ht : p.Takes 0) :
    AgreesBelow k p.many q.many := by
  have hrounds : ∀ (n : Nat) (c : Cursor), c.skipGap.rest.length < k →
      p.roundsRun n c = q.roundsRun n c := by
    intro n
    induction n with
    | zero => exact fun _ _ => rfl
    | succ n ih =>
      intro c hlt
      rw [roundsRun, roundsRun, ← h c.skipGap c.ready_skipGap hlt]
      split
      · rfl
      · next a d ha =>
        have := ht c.skipGap a d c.ready_skipGap ha
        rw [ih d (by omega)]
  intro c hc hlt
  simp only [Parser.many, ← h c hc hlt]
  split
  · rfl
  · next a d ha =>
    have := ht c a d hc ha
    rw [hrounds _ d (by omega)]

end AgreesBelow

end Parser

-- ---------------------------------------------------------------------------
-- The grammar of expressions
-- ---------------------------------------------------------------------------

namespace Grammar

open Cairn.Parser

variable {e e' : Parser (Expr Lexeme)} {k : Nat}

theorem FindsExpr.takes (he : FindsExpr e) : e.Takes 1 := by
  intro c x d hc hrun
  obtain ⟨c₁, hcovers, rfl⟩ := he c x d hc hrun
  exact hcovers.before.skipGap.skipGap.length_lt

theorem operand_takes (he : FindsExpr e) : (operand e).Takes 1 := by
  intro c x d hc hrun
  exact (operand_finds he c x d hc hrun).before.skipGap.length_lt

theorem binary_takes (he : FindsExpr e) : (binary e).Takes 1 := by
  intro c x d hc hrun
  obtain ⟨c₁, hcovers, hgap⟩ := binary_finds he c x d hc hrun
  rw [hgap]
  exact hcovers.before.skipGap.length_lt

theorem anyBinaryOp_advances : anyBinaryOp.Advances := by
  intro c op d hrun
  have hop : (binaryOp op).Advances := ((symbol_advances (by cases op <;> decide)).map _).rule _
  exact hop c op d (run_binaryOp_of_any hrun)

theorem signs_advance : (unaryOp .neg <|> unaryOp .not).Advances :=
  (unaryOp_advances _).orElse (unaryOp_advances _)

theorem operand_agrees (h : AgreesBelow k e e') : AgreesBelow (k + 1) (operand e) (operand e') := by
  have hgroup : AgreesBelow (k + 1) (group e) (group e') :=
    ((((AgreesBelow.behind (symbol_advances (by decide)) h).map _).seqLeft _).located).rule _
  have hprimary : AgreesBelow (k + 1) (primary e) (primary e') :=
    .orElse (.refl _ _) <| .orElse (.refl _ _) <| .orElse (.refl _ _) <| .orElse (.refl _ _) <|
      .orElse (.refl _ _) hgroup
  exact .seq (.refl _ _) ((signs_advance.takes.mono (Nat.zero_le 1)).many.map _) hprimary
    (Nat.le_refl _)

theorem binary_agrees (he : FindsExpr e) (h : AgreesBelow k e e') :
    AgreesBelow (k + 1) (binary e) (binary e') := by
  have hoperand := operand_agrees h
  have hnext : (Prod.mk <$> anyBinaryOp : Parser (Expr Lexeme → _)).Takes 1 :=
    anyBinaryOp_advances.takes.map _
  have hround : AgreesBelow (k + 1) (Prod.mk <$> anyBinaryOp <*> operand e)
      (Prod.mk <$> anyBinaryOp <*> operand e') :=
    .seq (.refl _ _) hnext hoperand (Nat.le_add_right _ _)
  have htakes := (hnext.seq (operand_takes he)).mono (Nat.zero_le _)
  exact .rule (.seq (hoperand.map _) ((operand_takes he).map _) (hround.many htakes)
    (Nat.le_add_right _ _)) _

theorem ternary_agrees (he : FindsExpr e) (h : AgreesBelow k e e') :
    AgreesBelow (k + 1) (ternary e) (ternary e') := by
  have hmark : AgreesBelow (k + 1) (symbol "?" *> e) (symbol "?" *> e') :=
    .behind (symbol_advances (by decide)) h
  have hcolon : AgreesBelow (k + 1) (symbol ":" *> e) (symbol ":" *> e') :=
    .behind (symbol_advances (by decide)) h
  have htrue : (symbol "?" *> e).Takes 2 := (symbol_advances (by decide)).takes.seqRight he.takes
  have hbranches := AgreesBelow.seq (hmark.map Prod.mk) (htrue.map _) hcolon
    (Nat.le_add_right _ _)
  exact .rule (.located (.seq ((binary_agrees he h).map _) ((binary_takes he).map _)
    hbranches.optional (Nat.le_add_right _ _))) _

theorem assignment_agrees (h : AgreesBelow k e e') :
    AgreesBelow (k + 1) (assignment e) (assignment e') := by
  have hsign : (Parser.rule .assignOp (.word Word.assignOp)).Advances := assignOp_advances.rule _
  refine .rule (.located (.seq (.refl _ _) (j := 2) ?_ h (by omega))) _
  exact .seq ((ident_advances.takes.map _).map _) hsign.takes

/-- **The bound of an expression** may be anything that is not below the length
of the text. -/
theorem expr_agrees {k n m : Nat} (hn : k ≤ n) (hm : k ≤ m) : AgreesBelow k (expr n) (expr m) := by
  induction k generalizing n m with
  | zero =>
    intro c _ hlt
    omega
  | succ k ih =>
    obtain ⟨n, rfl⟩ := Nat.exists_eq_add_of_le' (Nat.le_trans (Nat.le_add_left 1 k) hn)
    obtain ⟨m, rfl⟩ := Nat.exists_eq_add_of_le' (Nat.le_trans (Nat.le_add_left 1 k) hm)
    have hinner : AgreesBelow k (expr n) (expr m) := ih (by omega) (by omega)
    exact (assignment_agrees hinner).orElse (ternary_agrees (expr_finds n) hinner)

-- ---------------------------------------------------------------------------
-- The grammar of statements
-- ---------------------------------------------------------------------------

variable {s s' : Parser (Stmt Lexeme)}

theorem condition_takes (he : FindsExpr e) : (condition e).Takes 1 := by
  intro c x d hc hrun
  have henclosed := condition_finds he c x d hc hrun
  exact (henclosed.before (by decide) fun _ _ h => h.before.1).skipGap.length_lt

theorem statement_takes (n : Nat) : (statement n).Takes 1 := by
  intro c x d hc hrun
  exact (statement_finds n c x d hc hrun).before.skipGap.length_lt

theorem condition_agrees (h : AgreesBelow k e e') :
    AgreesBelow (k + 1) (condition e) (condition e') :=
  .seqLeft (.behind (symbol_advances (by decide)) h) _

theorem exprs_agree (he : FindsExpr e) (h : AgreesBelow k e e') :
    AgreesBelow k (commaList e) (commaList e') := by
  have hnext : AgreesBelow k (symbol "," *> e) (symbol "," *> e') :=
    (AgreesBelow.behind (symbol_advances (by decide)) h).mono (Nat.le_succ k)
  have htakes : (symbol "," *> e).Takes 2 := (symbol_advances (by decide)).takes.seqRight he.takes
  exact .seq (h.map _) (he.takes.map _) (hnext.many (htakes.mono (Nat.zero_le 2)))
    (Nat.le_add_right _ _)

theorem block_agrees (ht : s.Takes 1) (h : AgreesBelow k s s') :
    AgreesBelow (k + 1) (block s) (block s') := by
  have hbody := h.many (ht.mono (Nat.zero_le 1))
  have hopened := AgreesBelow.behind (p := symbol "\x7b") (symbol_advances (by decide)) hbody
  exact .rule (.located (.seqLeft (hopened.map _) _)) _

theorem write_agrees (he : FindsExpr e) (h : AgreesBelow k e e') :
    AgreesBelow k (write e) (write e') := by
  have hexprs : AgreesBelow k (keyword .write *> commaList e) (keyword .write *> commaList e') :=
    (AgreesBelow.behind (keyword_advances _) (exprs_agree he h)).mono (Nat.le_succ k)
  exact .rule (.located (.seqLeft (hexprs.map _) _)) _

/-- A reserved word with its condition. -/
theorem headed_agrees (w : Keyword) (h : AgreesBelow (k + 1) e e') :
    AgreesBelow (k + 1) (keyword w *> condition e) (keyword w *> condition e') :=
  (AgreesBelow.behind (keyword_advances w) (condition_agrees h)).mono (by omega)

theorem headed_takes (w : Keyword) (he : FindsExpr e) : (keyword w *> condition e).Takes 2 :=
  (keyword_advances w).takes.seqRight (condition_takes he)

theorem ifStmt_agrees (he : FindsExpr e) (ht : s.Takes 1) (h : AgreesBelow (k + 1) e e')
    (hs : AgreesBelow k s s') : AgreesBelow (k + 1) (ifStmt e s) (ifStmt e' s') := by
  have helse : AgreesBelow (k + 1) (keyword .else *> s) (keyword .else *> s') :=
    .behind (keyword_advances _) hs
  have hhead := headed_takes .if he
  exact .rule (.located (.seq (.seq ((headed_agrees .if h).map _) (hhead.map _) hs (by omega))
    ((hhead.map _).seq ht) helse.optional (by omega))) _

theorem whileDo_agrees (he : FindsExpr e) (h : AgreesBelow (k + 1) e e')
    (hs : AgreesBelow k s s') : AgreesBelow (k + 1) (whileDo e s) (whileDo e' s') :=
  .rule (.located (.seq ((headed_agrees .while h).map _) ((headed_takes .while he).map _) hs
    (by omega))) _

theorem doWhile_agrees (ht : s.Takes 1) (h : AgreesBelow (k + 1) e e')
    (hs : AgreesBelow k s s') : AgreesBelow (k + 1) (doWhile e s) (doWhile e' s') := by
  have hbody : AgreesBelow (k + 1) (keyword .do *> s) (keyword .do *> s') :=
    .behind (keyword_advances _) hs
  have htakes : (keyword .do *> s).Takes 2 := (keyword_advances _).takes.seqRight ht
  exact .rule (.located (.seqLeft (.seq (hbody.map _) (htakes.map _) (headed_agrees .while h)
    (by omega)) _)) _

/-- **The bound of a statement** may be anything that is not below the length of
the text. -/
theorem statement_agrees {k n m : Nat} (hn : k ≤ n) (hm : k ≤ m) :
    AgreesBelow k (statement n) (statement m) := by
  induction k generalizing n m with
  | zero =>
    intro c _ hlt
    omega
  | succ k ih =>
    obtain ⟨n, rfl⟩ := Nat.exists_eq_add_of_le' (Nat.le_trans (Nat.le_add_left 1 k) hn)
    obtain ⟨m, rfl⟩ := Nat.exists_eq_add_of_le' (Nat.le_trans (Nat.le_add_left 1 k) hm)
    have hinner : AgreesBelow k (statement n) (statement m) := ih (by omega) (by omega)
    have hexpr : AgreesBelow (k + 1) (expr (n + 1)) (expr (m + 1)) := expr_agrees hn hm
    have he := expr_finds (n + 1)
    have ht := statement_takes n
    have hexpression :=
      ((hexpr.map fun e loc => Stmt.expression loc e).seqLeft (symbol ";")).located
    exact .orElse (.refl _ _) <| .orElse (block_agrees ht hinner) <| .orElse (.refl _ _) <|
      .orElse (.refl _ _) <| .orElse (write_agrees he hexpr) <|
      .orElse (ifStmt_agrees he ht hexpr hinner) <| .orElse (whileDo_agrees he hexpr hinner) <|
      .orElse (doWhile_agrees ht hexpr hinner) (hexpression.rule _)

end Grammar

end Cairn
