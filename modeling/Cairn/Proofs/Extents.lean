import Cairn.Proofs.Tracking

/-!
# Cairn — where the parts of a tree stand

A tree *covers* a stretch of text, from one cursor to another, if its words and
those of its parts stand there one behind the other, with nothing but gaps
between them, and each node knows the stretch that it covers itself. Whatever the
grammar accepts is covered by the tree that it builds, and resolving the numbers
of the tree keeps that up.

Most nodes end with their last word. An assignment and a choice go on to the end
of the gap behind it, and so does a conditional without `else`, because there the
grammar has looked for one thing more.

## Main definitions

* `Expr.Covers`, `Stmt.Covers` — a tree and the stretch of text it was read from.

## Main statements

* `Grammar.expr_finds`, `Grammar.statement_finds` — what the grammar accepts.
* `Program.covers_of_parse` — a parsed program covers its source.
-/

namespace Cairn

-- ---------------------------------------------------------------------------
-- What a run of a parser is made of
-- ---------------------------------------------------------------------------

namespace Cursor

theorem skipGap_skipGap (c : Cursor) : c.skipGap.skipGap = c.skipGap :=
  c.ready_skipGap.skipGap_eq

end Cursor

namespace Parser

variable {α β : Type} {c d : Cursor}

theorem run_map {p : Parser α} {f : α → β} {b : β} (h : (f <$> p).run c = some (b, d)) :
    ∃ a, p.run c = some (a, d) ∧ b = f a := by
  obtain ⟨r, hr, heq⟩ := Option.map_eq_some_iff.mp h
  cases heq
  exact ⟨r.1, hr, rfl⟩

theorem run_seqRight {p : Parser α} {q : Parser β} {b : β} (h : (p *> q).run c = some (b, d)) :
    ∃ c' a, p.run c = some (a, c') ∧ q.run c'.skipGap = some (b, d) := by
  have hseq : (((fun _ b => b) <$> p : Parser (β → β)) <*> q).run c = some (b, d) := h
  obtain ⟨f, c', b', hf, hb, rfl⟩ := run_seq hseq
  obtain ⟨a, ha, rfl⟩ := run_map hf
  exact ⟨c', a, ha, hb⟩

/-- A later alternative is taken only where the earlier one fails. -/
theorem run_orElse_cases {p q : Parser α} {r : α × Cursor} (h : (p <|> q).run c = some r) :
    p.run c = some r ∨ p.run c = none ∧ q.run c = some r := by
  change (Parser.orElse p fun _ => q).run c = some r at h
  simp only [Parser.orElse] at h
  split at h
  · next r' hr => exact .inl (hr.trans h)
  · next hnone => exact .inr ⟨hnone, h⟩

theorem run_orElse {p q : Parser α} {a : α} (h : (p <|> q).run c = some (a, d)) :
    p.run c = some (a, d) ∨ q.run c = some (a, d) :=
  (run_orElse_cases h).imp_right And.right

/-- What is left out could not be read. -/
theorem run_optional {p : Parser α} {o : Option α} (h : p.optional.run c = some (o, d)) :
    (∃ a, o = some a ∧ p.run c = some (a, d)) ∨ o = none ∧ d = c ∧ p.run c = none := by
  simp only [Parser.optional] at h
  split at h
  · next a d' ha =>
    cases h
    exact .inl ⟨a, rfl, ha⟩
  · next hnone =>
    cases h
    exact .inr ⟨rfl, rfl, hnone⟩

theorem run_located {p : Parser (Location → α)} {a : α} (h : p.located.run c = some (a, d)) :
    ∃ f, p.run c = some (f, d) ∧ a = f (c.upTo d) := by
  obtain ⟨r, hr, heq⟩ := Option.map_eq_some_iff.mp h
  cases heq
  exact ⟨r.1, hr, rfl⟩

theorem run_word {measure : List Char → Option Nat} {word : List Char}
    (h : (Parser.word measure).run c = some (word, d)) :
    ∃ n, measure c.rest = some n ∧ word = c.rest.take n ∧ d = c.advance n := by
  obtain ⟨n, hn, heq⟩ := Option.map_eq_some_iff.mp h
  cases heq
  exact ⟨n, hn, rfl, rfl⟩

/-- The parser reads the values one behind the other, each behind a gap. -/
def Repeats (p : Parser α) : List α → Cursor → Cursor → Prop
  | [], c, d => d = c
  | a :: rest, c, d => ∃ c₁, p.run c.skipGap = some (a, c₁) ∧ p.Repeats rest c₁ d

theorem repeats_roundsRun (p : Parser α) (n : Nat) (c : Cursor) :
    p.Repeats (p.roundsRun n c).1 c (p.roundsRun n c).2 := by
  induction n generalizing c with
  | zero => exact rfl
  | succ n ih =>
    rw [roundsRun]
    split
    · exact rfl
    · next a c₁ ha => exact ⟨c₁, ha, ih c₁⟩

theorem repeats_of_many {p : Parser α} {as : List α} (hc : c.Ready)
    (h : p.many.run c = some (as, d)) : p.Repeats as c d := by
  simp only [Parser.many] at h
  split at h
  · cases h
    exact rfl
  · next a c₁ ha =>
    cases h
    refine ⟨c₁, ?_, p.repeats_roundsRun _ c₁⟩
    rw [hc.skipGap_eq]
    exact ha

/-- The parser reads something from the one cursor to the other. -/
def Passes (p : Parser α) (c d : Cursor) : Prop :=
  ∃ a, p.run c = some (a, d)

/-- The parser reads, from where no gap is in front, only what `R` relates to the
stretch that it takes up. -/
def Finds (p : Parser α) (R : α → Cursor → Cursor → Prop) : Prop :=
  ∀ c a d, c.Ready → p.run c = some (a, d) → R a c d

theorem Finds.orElse {p q : Parser α} {R : α → Cursor → Cursor → Prop} (hp : p.Finds R)
    (hq : q.Finds R) : (p <|> q).Finds R := by
  intro c a d hc h
  rcases run_orElse h with h | h
  · exact hp c a d hc h
  · exact hq c a d hc h

end Parser

-- ---------------------------------------------------------------------------
-- Trees and the text they cover
-- ---------------------------------------------------------------------------

open Grammar

/-- What stands between two marks. -/
def Enclosed (left right : String) (R : Cursor → Cursor → Prop) (c d : Cursor) : Prop :=
  ∃ c₁ c₂, (symbol left).Passes c c₁ ∧ R c₁.skipGap c₂ ∧ (symbol right).Passes c₂.skipGap d

/-- One or more things with commas between them. -/
inductive Listed {α : Type} (R : α → Cursor → Cursor → Prop) : List α → Cursor → Cursor → Prop
  | one {a : α} {c d : Cursor} : R a c d → Listed R [a] c d
  | more {a : α} {rest : List α} {c c₁ c₂ d : Cursor} : R a c c₁ →
      (symbol ",").Passes c₁.skipGap c₂ → Listed R rest c₂.skipGap d → Listed R (a :: rest) c d

/-- The name is read from the one cursor to the other. -/
def Ident.Covers (x : Ident) (c d : Cursor) : Prop :=
  Grammar.ident.run c = some (x, d)

/-- Any literal. A number with a point is not taken for the whole number that it
starts with. -/
def Grammar.anyLiteral : Parser (Expr Lexeme) :=
  float <|> int <|> string <|> bool

/-- The literal is read from the one cursor to the other. -/
def Lexeme.Covers (lexeme : Lexeme) (loc : Location) (c d : Cursor) : Prop :=
  Grammar.anyLiteral.run c = some (.literal loc lexeme, d)

section

variable {L : Type} (S : L → Lexeme → Prop)

/-- The expression was read from the one cursor to the other, where `S` says which
lexeme a literal can stand for. -/
def Expr.Covers : Expr L → Cursor → Cursor → Prop
  | .literal loc value, c, d => ∃ lexeme, S value lexeme ∧ lexeme.Covers loc c d
  | .name loc x, c, d => Ident.Covers ⟨x, loc⟩ c d
  | .group loc inner, c, d => loc = c.upTo d ∧ Enclosed "(" ")" inner.Covers c d
  | .unary loc op operand, c, d =>
    loc = c.upTo d ∧ ∃ c₁, (unaryOp op).Passes c c₁ ∧ operand.Covers c₁.skipGap d
  | .binary loc op left right, c, d =>
    loc = c.upTo d ∧ ∃ c₁ c₂, left.Covers c c₁ ∧ (binaryOp op).Passes c₁.skipGap c₂ ∧
      right.Covers c₂.skipGap d
  | .assign loc target value, c, d =>
    loc = c.upTo d ∧ ∃ c₁ c₂ c₃, target.Covers c c₁ ∧
      (Parser.word Word.assignOp).Passes c₁.skipGap c₂ ∧ value.Covers c₂.skipGap c₃ ∧ d = c₃.skipGap
  | .ternary loc cond onTrue onFalse, c, d =>
    loc = c.upTo d ∧ ∃ c₁ c₂ c₃ c₄ c₅, cond.Covers c c₁ ∧ (symbol "?").Passes c₁.skipGap c₂ ∧
      onTrue.Covers c₂.skipGap c₃ ∧ (symbol ":").Passes c₃.skipGap c₄ ∧
      onFalse.Covers c₄.skipGap c₅ ∧ d = c₅.skipGap

mutual

/-- The statement was read from the one cursor to the other. -/
def Stmt.Covers : Stmt L → Cursor → Cursor → Prop
  | .empty loc, c, d => loc = c.upTo d ∧ (symbol ";").Passes c d
  | .declaration loc ty names, c, d =>
    loc = c.upTo d ∧ ∃ c₁ c₂, typeName.run c = some (ty, c₁) ∧
      Listed Ident.Covers names c₁.skipGap c₂ ∧ (symbol ";").Passes c₂.skipGap d
  | .expression loc e, c, d =>
    loc = c.upTo d ∧ ∃ c₁, e.Covers S c c₁ ∧ (symbol ";").Passes c₁.skipGap d
  | .read loc names, c, d =>
    loc = c.upTo d ∧ ∃ c₁ c₂, (keyword .read).Passes c c₁ ∧
      Listed Ident.Covers names c₁.skipGap c₂ ∧ (symbol ";").Passes c₂.skipGap d
  | .write loc exprs, c, d =>
    loc = c.upTo d ∧ ∃ c₁ c₂, (keyword .write).Passes c c₁ ∧
      Listed (Expr.Covers S) exprs c₁.skipGap c₂ ∧ (symbol ";").Passes c₂.skipGap d
  | .block loc body, c, d => loc = c.upTo d ∧ Enclosed "\x7b" "\x7d" (CoversAll body) c d
  | .ifThen loc cond onTrue, c, d =>
    loc = c.upTo d ∧ ∃ c₁ c₂ c₃, (keyword .if).Passes c c₁ ∧
      Enclosed "(" ")" (cond.Covers S) c₁.skipGap c₂ ∧ onTrue.Covers c₂.skipGap c₃ ∧ d = c₃.skipGap
  | .ifElse loc cond onTrue onFalse, c, d =>
    loc = c.upTo d ∧ ∃ c₁ c₂ c₃ c₄, (keyword .if).Passes c c₁ ∧
      Enclosed "(" ")" (cond.Covers S) c₁.skipGap c₂ ∧ onTrue.Covers c₂.skipGap c₃ ∧
      (keyword .else).Passes c₃.skipGap c₄ ∧ onFalse.Covers c₄.skipGap d
  | .whileDo loc cond body, c, d =>
    loc = c.upTo d ∧ ∃ c₁ c₂, (keyword .while).Passes c c₁ ∧
      Enclosed "(" ")" (cond.Covers S) c₁.skipGap c₂ ∧ body.Covers c₂.skipGap d
  | .doWhile loc body cond, c, d =>
    loc = c.upTo d ∧ ∃ c₁ c₂ c₃ c₄, (keyword .do).Passes c c₁ ∧ body.Covers c₁.skipGap c₂ ∧
      (keyword .while).Passes c₂.skipGap c₃ ∧
      Enclosed "(" ")" (cond.Covers S) c₃.skipGap c₄ ∧ (symbol ";").Passes c₄.skipGap d

/-- The statements were read one behind the other, each behind a gap. -/
def Stmt.CoversAll : List (Stmt L) → Cursor → Cursor → Prop
  | [], c, d => d = c
  | s :: rest, c, d => ∃ c₁, s.Covers c.skipGap c₁ ∧ CoversAll rest c₁ d

end

end

-- ---------------------------------------------------------------------------
-- Locations
-- ---------------------------------------------------------------------------

section

open Cairn.Parser

theorem Grammar.run_literal {r : Rule} {value : Parser Lexeme} {e : Expr Lexeme} {c d : Cursor}
    (h : (literal r value).run c = some (e, d)) :
    ∃ lexeme, e = .literal (c.upTo d) lexeme ∧ value.run c = some (lexeme, d) := by
  obtain ⟨f, hf, rfl⟩ := run_located h
  obtain ⟨lexeme, hlexeme, rfl⟩ := run_map hf
  exact ⟨lexeme, rfl, hlexeme⟩

theorem Grammar.exists_of_anyLiteral {e : Expr Lexeme} {c d : Cursor}
    (h : anyLiteral.run c = some (e, d)) :
    ∃ p ∈ [float, int, string, bool], p.run c = some (e, d) := by
  rcases run_orElse h with h | h
  · exact ⟨float, by simp, h⟩
  rcases run_orElse h with h | h
  · exact ⟨int, by simp, h⟩
  rcases run_orElse h with h | h
  · exact ⟨string, by simp, h⟩
  · exact ⟨bool, by simp, h⟩

theorem Grammar.run_anyLiteral {e : Expr Lexeme} {c d : Cursor}
    (h : anyLiteral.run c = some (e, d)) : ∃ lexeme, e = .literal (c.upTo d) lexeme := by
  obtain ⟨p, hp, hrun⟩ := exists_of_anyLiteral h
  have hliteral : ∃ r value, p = literal r value := by
    simp only [List.mem_cons, List.not_mem_nil, or_false] at hp
    rcases hp with rfl | rfl | rfl | rfl <;> exact ⟨_, _, rfl⟩
  obtain ⟨r, value, rfl⟩ := hliteral
  obtain ⟨lexeme, heq, -⟩ := run_literal hrun
  exact ⟨lexeme, heq⟩

theorem Lexeme.Covers.loc_eq {lexeme : Lexeme} {loc : Location} {c d : Cursor}
    (h : lexeme.Covers loc c d) : loc = c.upTo d := by
  obtain ⟨_, heq⟩ := run_anyLiteral h
  cases heq
  rfl

theorem Ident.Covers.run_word {x : Ident} {c d : Cursor} (h : x.Covers c d) :
    x.loc = c.upTo d ∧ (Parser.word Word.ident).run c = some (x.name.toList, d) := by
  obtain ⟨f, hf, rfl⟩ := run_located h
  obtain ⟨cs, hcs, rfl⟩ := run_map hf
  exact ⟨rfl, by rw [String.toList_ofList]; exact hcs⟩

variable {L : Type} {S : L → Lexeme → Prop} {c d : Cursor}

/-- An expression knows the stretch that it covers. -/
theorem Expr.Covers.loc_eq {e : Expr L} (h : e.Covers S c d) : e.loc = c.upTo d := by
  cases e with
  | literal loc value =>
    obtain ⟨lexeme, -, hlexeme⟩ := h
    exact hlexeme.loc_eq
  | name loc x => exact (Ident.Covers.run_word h).1
  | _ => exact h.1

/-- A statement knows the stretch that it covers. -/
theorem Stmt.Covers.loc_eq {s : Stmt L} (h : s.Covers S c d) : s.loc = c.upTo d := by
  cases s <;> exact h.1

end

-- ---------------------------------------------------------------------------
-- Chains of operators
-- ---------------------------------------------------------------------------

section

variable {L : Type} {S : L → Lexeme → Prop} {c c₁ c₂ d : Cursor}

theorem Expr.Covers.attach {op : BinaryOp} {right e : Expr L} (he : e.Covers S c c₁)
    (hop : (binaryOp op).Passes c₁.skipGap c₂) (hright : right.Covers S c₂.skipGap d) :
    (Expr.attach op right e).Covers S c d := by
  induction e generalizing c with
  | binary loc op' left right' ihl ihr =>
    rw [Expr.attach]
    split
    · obtain ⟨-, b₁, b₂, hleft, hop', hright'⟩ := he
      have hlast := ihr hright'
      exact ⟨by rw [hleft.loc_eq, hlast.loc_eq]; rfl, b₁, b₂, hleft, hop', hlast⟩
    · exact ⟨by rw [he.1, hright.loc_eq]; rfl, c₁, c₂, he, hop, hright⟩
  | _ => exact ⟨by rw [he.loc_eq, hright.loc_eq]; rfl, c₁, c₂, he, hop, hright⟩

/-- The rounds of a chain: operators with their right operands. -/
theorem Expr.Covers.ofChain {operand : Parser (Expr L)}
    (hoperand : operand.Finds (Expr.Covers S)) {first : Expr L} {more : List (BinaryOp × Expr L)}
    (hfirst : first.Covers S c c₁)
    (hmore : (Prod.mk <$> anyBinaryOp <*> operand).Repeats more c₁ d) :
    (Expr.ofChain first more).Covers S c d := by
  induction more generalizing first c₁ with
  | nil =>
    cases hmore
    exact hfirst
  | cons next more ih =>
    obtain ⟨c₂, hnext, hrest⟩ := hmore
    obtain ⟨f, c₃, right, hf, hright, rfl⟩ := Parser.run_seq hnext
    obtain ⟨op, hop, rfl⟩ := Parser.run_map hf
    have hattach := hfirst.attach ⟨op, run_binaryOp_of_any hop⟩
      (hoperand _ _ _ c₃.ready_skipGap hright)
    exact ih hattach hrest

theorem Expr.Covers.ofOperand {ops : List (UnaryOp × Location)} {operand : Expr L}
    (hops : (unaryOp .neg <|> unaryOp .not).Repeats ops c c₁)
    (hoperand : operand.Covers S c₁.skipGap d) : (Expr.ofOperand ops operand).Covers S c.skipGap d := by
  induction ops generalizing c with
  | nil =>
    cases hops
    exact hoperand
  | cons sign ops ih =>
    obtain ⟨c₂, hsign, hrest⟩ := hops
    have hinner := ih hrest
    have hrun : sign.2 = c.skipGap.upTo c₂ ∧ (unaryOp sign.1).Passes c.skipGap c₂ := by
      rcases Parser.run_orElse hsign with h | h
      all_goals
        obtain ⟨f, hf, rfl⟩ := Parser.run_located h
        obtain ⟨word, -, rfl⟩ := Parser.run_map hf
        exact ⟨rfl, _, h⟩
    refine ⟨?_, c₂, hrun.2, hinner⟩
    have hloc := hinner.loc_eq
    rw [Expr.ofOperand] at hloc
    rw [hrun.1, hloc]
    rfl

end

-- ---------------------------------------------------------------------------
-- The grammar of expressions
-- ---------------------------------------------------------------------------

/-- The lexemes of a tree that the grammar builds stand for themselves. -/
abbrev Expr.Read (e : Expr Lexeme) : Cursor → Cursor → Prop :=
  e.Covers Eq

namespace Grammar

open Cairn.Parser

/-- What is read of expressions: behind them, the gap is passed as well. -/
def FindsExpr (p : Parser (Expr Lexeme)) : Prop :=
  p.Finds fun e c d => ∃ c₁, e.Read c c₁ ∧ d = c₁.skipGap

theorem anyLiteral_finds : anyLiteral.Finds Expr.Read := by
  intro c e d _ hrun
  obtain ⟨lexeme, rfl⟩ := run_anyLiteral hrun
  exact ⟨lexeme, rfl, hrun⟩

theorem name_finds : name.Finds Expr.Read := by
  intro c e d _ h
  obtain ⟨x, hx, rfl⟩ := run_map h
  exact hx

variable {e : Parser (Expr Lexeme)}

theorem group_finds (he : FindsExpr e) : (group e).Finds Expr.Read := by
  intro c x d hc h
  obtain ⟨f, hf, rfl⟩ := run_located h
  obtain ⟨c₁, b, hfront, hright⟩ := run_seqLeft hf
  obtain ⟨inner, hopened, rfl⟩ := run_map hfront
  obtain ⟨c₂, a, hleft, hinner⟩ := run_seqRight hopened
  obtain ⟨c₃, hcovers, rfl⟩ := he _ _ _ c₂.ready_skipGap hinner
  rw [Cursor.skipGap_skipGap] at hright
  exact ⟨rfl, c₂, c₃, ⟨a, hleft⟩, hcovers, b, hright⟩

theorem run_primary (e : Parser (Expr Lexeme)) (c : Cursor) :
    (primary e).run c = (anyLiteral <|> (name <|> group e)).run c := by
  simp only [primary, anyLiteral, HOrElse.hOrElse, OrElse.orElse, Parser.orElse]
  cases float.run c <;> cases int.run c <;> cases string.run c <;> rfl

theorem operand_finds (he : FindsExpr e) : (operand e).Finds Expr.Read := by
  have hprimary : (primary e).Finds Expr.Read := by
    intro c x d hc h
    rw [run_primary] at h
    exact anyLiteral_finds.orElse (name_finds.orElse (group_finds he)) c x d hc h
  intro c x d hc h
  obtain ⟨f, c₁, inner, hf, hinner, rfl⟩ := run_seq h
  obtain ⟨ops, hops, rfl⟩ := run_map hf
  have hcovers := Expr.Covers.ofOperand (repeats_of_many hc hops)
    (hprimary _ _ _ c₁.ready_skipGap hinner)
  rwa [hc.skipGap_eq] at hcovers

theorem binary_finds (he : FindsExpr e) :
    (binary e).Finds fun x c d => ∃ c₁, x.Read c c₁ ∧ d.skipGap = c₁.skipGap := by
  intro c x d hc h
  obtain ⟨f, c₁, more, hf, hmore, rfl⟩ := run_seq h
  obtain ⟨first, hfirst, rfl⟩ := run_map hf
  have hcovers := operand_finds he _ _ _ hc hfirst
  have hrounds := repeats_of_many c₁.ready_skipGap hmore
  cases more with
  | nil =>
    cases hrounds
    exact ⟨c₁, hcovers, c₁.skipGap_skipGap⟩
  | cons next more =>
    -- a round skips the gap in front of it, so one more in front changes nothing
    rw [Parser.Repeats, Cursor.skipGap_skipGap] at hrounds
    exact ⟨d, hcovers.ofChain (operand_finds he) hrounds, rfl⟩

theorem ternary_finds (he : FindsExpr e) : FindsExpr (ternary e) := by
  intro c x d hc h
  obtain ⟨f, hf, rfl⟩ := run_located h
  obtain ⟨g, c₁, branches, hg, hbranches, rfl⟩ := run_seq hf
  obtain ⟨cond, hcond, rfl⟩ := run_map hg
  obtain ⟨c₂, hcovers, hgap⟩ := binary_finds he _ _ _ hc hcond
  rw [hgap] at hbranches
  rcases run_optional hbranches with ⟨both, rfl, hboth⟩ | ⟨rfl, rfl, -⟩
  · obtain ⟨_, c₃, onFalse, hfirst, hsecond, rfl⟩ := run_seq hboth
    obtain ⟨onTrue, hopened, rfl⟩ := run_map hfirst
    obtain ⟨c₄, mark, hmark, htrue⟩ := run_seqRight hopened
    obtain ⟨c₅, colon, hcolon, hfalse⟩ := run_seqRight hsecond
    obtain ⟨c₆, hontrue, rfl⟩ := he _ _ _ c₄.ready_skipGap htrue
    obtain ⟨c₇, honfalse, rfl⟩ := he _ _ _ c₅.ready_skipGap hfalse
    rw [Cursor.skipGap_skipGap] at hcolon
    exact ⟨c₇.skipGap, ⟨rfl, c₂, c₄, c₆, c₅, c₇, hcovers, ⟨mark, hmark⟩, hontrue,
      ⟨colon, hcolon⟩, honfalse, rfl⟩, c₇.skipGap_skipGap.symm⟩
  · exact ⟨c₂, hcovers, rfl⟩

theorem assignment_finds (he : FindsExpr e) : FindsExpr (assignment e) := by
  intro c x d hc h
  obtain ⟨f, hf, rfl⟩ := run_located h
  obtain ⟨g, c₁, value, hfront, hrun, rfl⟩ := run_seq hf
  obtain ⟨c₂, sign, hname, hsign⟩ := run_seqLeft hfront
  obtain ⟨target, htarget, rfl⟩ := run_map hname
  obtain ⟨c₃, hvalue, rfl⟩ := he _ _ _ c₁.ready_skipGap hrun
  exact ⟨c₃.skipGap, ⟨rfl, c₂, c₁, c₃, htarget, ⟨sign, hsign⟩, hvalue, rfl⟩,
    c₃.skipGap_skipGap.symm⟩

/-- **Expressions cover the text they are read from**, up to the gap behind it. -/
theorem expr_finds (n : Nat) : FindsExpr (expr n) := by
  induction n with
  | zero =>
    intro c x d _ h
    cases h
  | succ n ih => exact (assignment_finds ih).orElse (ternary_finds ih)

-- ---------------------------------------------------------------------------
-- The grammar of statements
-- ---------------------------------------------------------------------------

/-- What stands in a list, and where it ends up to a gap. -/
theorem commaList_finds {α : Type} {p : Parser α} {R : α → Cursor → Cursor → Prop}
    (hp : p.Finds fun a c d => ∃ c₁, R a c c₁ ∧ d.skipGap = c₁.skipGap) :
    (commaList p).Finds fun as c d => ∃ c₁, Listed R as c c₁ ∧ d.skipGap = c₁.skipGap := by
  have hmore : ∀ (more : List α) (a : α) (c c₁ c₂ d : Cursor), R a c c₁ →
      c₂.skipGap = c₁.skipGap → (symbol "," *> p).Repeats more c₂ d →
      ∃ d₁, Listed R (a :: more) c d₁ ∧ d.skipGap = d₁.skipGap := by
    intro more
    induction more with
    | nil =>
      intro a c c₁ c₂ d ha hgap hrounds
      cases hrounds
      exact ⟨c₁, .one ha, hgap⟩
    | cons b more ih =>
      rintro a c c₁ c₂ d ha hgap ⟨c₃, hround, hrest⟩
      obtain ⟨c₄, comma, hcomma, hrun⟩ := run_seqRight hround
      obtain ⟨c₅, hb, hgap'⟩ := hp _ _ _ c₄.ready_skipGap hrun
      obtain ⟨d₁, hlisted, hend⟩ := ih b _ _ _ _ hb hgap' hrest
      rw [hgap] at hcomma
      exact ⟨d₁, .more ha ⟨comma, hcomma⟩ hlisted, hend⟩
  intro c as d hc h
  obtain ⟨f, c₁, more, hf, hrun, rfl⟩ := run_seq h
  obtain ⟨a, ha, rfl⟩ := run_map hf
  obtain ⟨c₂, hfirst, hgap⟩ := hp _ _ _ hc ha
  have hrounds := repeats_of_many c₁.ready_skipGap hrun
  exact hmore more a c c₂ c₁.skipGap d hfirst (c₁.skipGap_skipGap.trans hgap) hrounds

theorem names_finds :
    (commaList ident).Finds fun names c d =>
      ∃ c₁, Listed Ident.Covers names c c₁ ∧ d.skipGap = c₁.skipGap :=
  commaList_finds fun _ _ d _ h => ⟨d, h, rfl⟩

theorem exprs_finds (he : FindsExpr e) :
    (commaList e).Finds fun exprs c d =>
      ∃ c₁, Listed Expr.Read exprs c c₁ ∧ d.skipGap = c₁.skipGap := by
  refine commaList_finds fun c x d hc h => ?_
  obtain ⟨c₁, hx, rfl⟩ := he c x d hc h
  exact ⟨c₁, hx, c₁.skipGap_skipGap⟩

theorem condition_finds (he : FindsExpr e) :
    (condition e).Finds fun cond => Enclosed "(" ")" cond.Read := by
  intro c cond d hc h
  obtain ⟨c₁, b, hfront, hright⟩ := run_seqLeft h
  obtain ⟨c₂, a, hleft, hinner⟩ := run_seqRight hfront
  obtain ⟨c₃, hcond, rfl⟩ := he _ _ _ c₂.ready_skipGap hinner
  rw [Cursor.skipGap_skipGap] at hright
  exact ⟨c₂, c₃, ⟨a, hleft⟩, hcond, b, hright⟩

end Grammar

/-- The lexemes of a tree that the grammar builds stand for themselves. -/
abbrev Stmt.Read (s : Stmt Lexeme) : Cursor → Cursor → Prop :=
  s.Covers Eq

namespace Grammar

open Cairn.Parser

variable {e : Parser (Expr Lexeme)} {s : Parser (Stmt Lexeme)}

theorem coversAll_of_repeats (hs : s.Finds Stmt.Read) {body : List (Stmt Lexeme)} {c d : Cursor}
    (h : s.Repeats body c d) : Stmt.CoversAll Eq body c d := by
  induction body generalizing c with
  | nil => exact h
  | cons first rest ih =>
    obtain ⟨c₁, hfirst, hrest⟩ := h
    exact ⟨c₁, hs _ _ _ c.ready_skipGap hfirst, ih hrest⟩

theorem empty_finds : empty.Finds Stmt.Read := by
  intro c x d _ h
  obtain ⟨f, hf, rfl⟩ := run_located h
  obtain ⟨mark, hmark, rfl⟩ := run_map hf
  exact ⟨rfl, mark, hmark⟩

theorem block_finds (hs : s.Finds Stmt.Read) : (block s).Finds Stmt.Read := by
  intro c x d _ h
  obtain ⟨f, hf, rfl⟩ := run_located h
  obtain ⟨c₁, b, hfront, hright⟩ := run_seqLeft hf
  obtain ⟨body, hopened, rfl⟩ := run_map hfront
  obtain ⟨c₂, a, hleft, hbody⟩ := run_seqRight hopened
  have hall := coversAll_of_repeats hs (repeats_of_many c₂.ready_skipGap hbody)
  exact ⟨rfl, c₂, c₁, ⟨a, hleft⟩, hall, b, hright⟩

theorem declaration_finds : declaration.Finds Stmt.Read := by
  intro c x d _ h
  obtain ⟨f, hf, rfl⟩ := run_located h
  obtain ⟨c₁, mark, hfront, hmark⟩ := run_seqLeft hf
  obtain ⟨g, c₂, names, hg, hnames, rfl⟩ := run_seq hfront
  obtain ⟨ty, hty, rfl⟩ := run_map hg
  obtain ⟨c₃, hlisted, hgap⟩ := names_finds _ _ _ c₂.ready_skipGap hnames
  rw [hgap] at hmark
  exact ⟨rfl, c₂, c₃, hty, hlisted, mark, hmark⟩

theorem read_finds : read.Finds Stmt.Read := by
  intro c x d _ h
  obtain ⟨f, hf, rfl⟩ := run_located h
  obtain ⟨c₁, mark, hfront, hmark⟩ := run_seqLeft hf
  obtain ⟨names, hnames, rfl⟩ := run_map hfront
  obtain ⟨c₂, word, hword, hnames⟩ := run_seqRight hnames
  obtain ⟨c₃, hlisted, hgap⟩ := names_finds _ _ _ c₂.ready_skipGap hnames
  rw [hgap] at hmark
  exact ⟨rfl, c₂, c₃, ⟨word, hword⟩, hlisted, mark, hmark⟩

theorem write_finds (he : FindsExpr e) : (write e).Finds Stmt.Read := by
  intro c x d _ h
  obtain ⟨f, hf, rfl⟩ := run_located h
  obtain ⟨c₁, mark, hfront, hmark⟩ := run_seqLeft hf
  obtain ⟨exprs, hexprs, rfl⟩ := run_map hfront
  obtain ⟨c₂, word, hword, hexprs⟩ := run_seqRight hexprs
  obtain ⟨c₃, hlisted, hgap⟩ := exprs_finds he _ _ _ c₂.ready_skipGap hexprs
  rw [hgap] at hmark
  exact ⟨rfl, c₂, c₃, ⟨word, hword⟩, hlisted, mark, hmark⟩

theorem ifStmt_finds (he : FindsExpr e) (hs : s.Finds Stmt.Read) :
    (ifStmt e s).Finds Stmt.Read := by
  intro c x d _ h
  obtain ⟨f, hf, rfl⟩ := run_located h
  obtain ⟨g, c₁, other, hg, hother, rfl⟩ := run_seq hf
  obtain ⟨g', c₂, onTrue, hg', htrue, rfl⟩ := run_seq hg
  obtain ⟨cond, hcond, rfl⟩ := run_map hg'
  obtain ⟨c₃, word, hword, hcond⟩ := run_seqRight hcond
  have hcondition := condition_finds he _ _ _ c₃.ready_skipGap hcond
  have hontrue := hs _ _ _ c₂.ready_skipGap htrue
  rcases run_optional hother with ⟨onFalse, rfl, hfalse⟩ | ⟨rfl, rfl, -⟩
  · obtain ⟨c₄, other, helse, hfalse⟩ := run_seqRight hfalse
    exact ⟨rfl, c₃, c₂, c₁, c₄, ⟨word, hword⟩, hcondition, hontrue, ⟨other, helse⟩,
      hs _ _ _ c₄.ready_skipGap hfalse⟩
  · exact ⟨rfl, c₃, c₂, c₁, ⟨word, hword⟩, hcondition, hontrue, rfl⟩

theorem whileDo_finds (he : FindsExpr e) (hs : s.Finds Stmt.Read) :
    (whileDo e s).Finds Stmt.Read := by
  intro c x d _ h
  obtain ⟨f, hf, rfl⟩ := run_located h
  obtain ⟨g, c₁, body, hg, hbody, rfl⟩ := run_seq hf
  obtain ⟨cond, hcond, rfl⟩ := run_map hg
  obtain ⟨c₂, word, hword, hcond⟩ := run_seqRight hcond
  exact ⟨rfl, c₂, c₁, ⟨word, hword⟩, condition_finds he _ _ _ c₂.ready_skipGap hcond,
    hs _ _ _ c₁.ready_skipGap hbody⟩

theorem doWhile_finds (he : FindsExpr e) (hs : s.Finds Stmt.Read) :
    (doWhile e s).Finds Stmt.Read := by
  intro c x d _ h
  obtain ⟨f, hf, rfl⟩ := run_located h
  obtain ⟨c₁, mark, hfront, hmark⟩ := run_seqLeft hf
  obtain ⟨g, c₂, cond, hg, hcond, rfl⟩ := run_seq hfront
  obtain ⟨body, hbody, rfl⟩ := run_map hg
  obtain ⟨c₃, word, hword, hbody⟩ := run_seqRight hbody
  obtain ⟨c₄, again, hagain, hcond⟩ := run_seqRight hcond
  exact ⟨rfl, c₃, c₂, c₄, c₁, ⟨word, hword⟩, hs _ _ _ c₃.ready_skipGap hbody, ⟨again, hagain⟩,
    condition_finds he _ _ _ c₄.ready_skipGap hcond, mark, hmark⟩

theorem expression_finds (he : FindsExpr e) : (expression e).Finds Stmt.Read := by
  intro c x d hc h
  obtain ⟨f, hf, rfl⟩ := run_located h
  obtain ⟨c₁, mark, hfront, hmark⟩ := run_seqLeft hf
  obtain ⟨inner, hinner, rfl⟩ := run_map hfront
  obtain ⟨c₂, hcovers, rfl⟩ := he _ _ _ hc hinner
  rw [Cursor.skipGap_skipGap] at hmark
  exact ⟨rfl, c₂, hcovers, mark, hmark⟩

/-- **Statements cover the text they are read from.** -/
theorem statement_finds (n : Nat) : (statement n).Finds Stmt.Read := by
  induction n with
  | zero =>
    intro c x d _ h
    cases h
  | succ n ih =>
    have he := expr_finds (n + 1)
    exact empty_finds.orElse <| (block_finds ih).orElse <| declaration_finds.orElse <|
      read_finds.orElse <| (write_finds he).orElse <| (ifStmt_finds he ih).orElse <|
      (whileDo_finds he ih).orElse <| (doWhile_finds he ih).orElse (expression_finds he)

/-- A whole text is covered by its statements, up to the gaps around them. -/
theorem program_covers {n : Nat} {c d : Cursor} {body : List (Stmt Lexeme)}
    (h : (program n).run c = some (body, d)) :
    ∃ c₁, Stmt.CoversAll Eq body c.skipGap c₁ ∧ c₁.skipGap.rest = [] := by
  obtain ⟨c₁, _, hbody, hend⟩ := run_seqLeft h
  obtain ⟨f, c₂, body, hid, hmany, rfl⟩ := run_seq hbody
  cases hid
  have hrounds := repeats_of_many c.ready_skipGap hmany
  refine ⟨c₁, coversAll_of_repeats (statement_finds _) hrounds, ?_⟩
  simpa using (Option.ite_none_right_eq_some.mp hend).1

end Grammar

-- ---------------------------------------------------------------------------
-- Resolving
-- ---------------------------------------------------------------------------

/-- The literal is the value of the lexeme. -/
def Literal.IsValueOf (value : Literal) (lexeme : Lexeme) : Prop :=
  lexeme.read? = some value

section

variable {limit : Nat}

theorem Expr.resolve_covers {e : Expr Lexeme} {c d : Cursor} (h : e.Read c d) (depth : Nat) :
    Gives (e.resolve limit depth) fun e' => e'.Covers Literal.IsValueOf c d := by
  induction e generalizing depth c d with
  | literal loc lexeme =>
    obtain ⟨_, rfl, hlexeme⟩ := h
    rw [Expr.resolve]
    split
    · next value hvalue => exact .ok ⟨lexeme, hvalue, hlexeme⟩
    · rintro _ ⟨⟩
  | name loc x => exact .ok h
  | group loc inner ih =>
    obtain ⟨hloc, c₁, c₂, hleft, hinner, hright⟩ := h
    exact (Gives.nested limit depth loc (ih hinner _)).bind fun _ hinner =>
      .ok ⟨hloc, c₁, c₂, hleft, hinner, hright⟩
  | unary loc op operand ih =>
    obtain ⟨hloc, c₁, hop, hoperand⟩ := h
    exact (ih hoperand depth).bind fun _ hoperand => .ok ⟨hloc, c₁, hop, hoperand⟩
  | binary loc op left right ihl ihr =>
    obtain ⟨hloc, c₁, c₂, hleft, hop, hright⟩ := h
    refine (ihl hleft depth).bind fun _ hleft => ?_
    exact (ihr hright depth).bind fun _ hright => .ok ⟨hloc, c₁, c₂, hleft, hop, hright⟩
  | assign loc target value ih =>
    obtain ⟨hloc, c₁, c₂, c₃, htarget, hop, hvalue, hend⟩ := h
    exact (Gives.nested limit depth _ (ih hvalue _)).bind fun _ hvalue =>
      .ok ⟨hloc, c₁, c₂, c₃, htarget, hop, hvalue, hend⟩
  | ternary loc cond onTrue onFalse ihc iht ihf =>
    obtain ⟨hloc, c₁, c₂, c₃, c₄, c₅, hcond, hmark, htrue, hcolon, hfalse, hend⟩ := h
    refine (ihc hcond depth).bind fun _ hcond => ?_
    have hbranches : Gives (onTrue.resolve limit (depth + 1) >>= fun t =>
        onFalse.resolve limit (depth + 1) >>= fun f => return (t, f)) fun branches =>
        branches.1.Covers Literal.IsValueOf c₂.skipGap c₃ ∧
          branches.2.Covers Literal.IsValueOf c₄.skipGap c₅ :=
      (iht htrue _).bind fun _ ht => (ihf hfalse _).bind fun _ hf => .ok ⟨ht, hf⟩
    exact (Gives.nested limit depth loc hbranches).bind fun _ hb =>
      .ok ⟨hloc, c₁, c₂, c₃, c₄, c₅, hcond, hmark, hb.1, hcolon, hb.2, hend⟩

theorem Listed.mapM {ε α β : Type} {f : α → Except ε β} {R : α → Cursor → Cursor → Prop}
    {Q : β → Cursor → Cursor → Prop} (hf : ∀ a c d, R a c d → Gives (f a) fun b => Q b c d)
    {as : List α} {c d : Cursor} (h : Listed R as c d) :
    Gives (as.mapM f) fun bs => Listed Q bs c d := by
  induction h with
  | one ha =>
    rw [List.mapM_cons]
    exact (hf _ _ _ ha).bind fun b hb => .ok (.one hb)
  | more ha hcomma _ ih =>
    rw [List.mapM_cons]
    refine (hf _ _ _ ha).bind fun b hb => ?_
    exact ih.bind fun bs hbs => .ok (.more hb hcomma hbs)

mutual

theorem Stmt.resolve_covers {s : Stmt Lexeme} {c d : Cursor} (h : s.Read c d) (depth : Nat) :
    Gives (s.resolve limit depth) fun s' => s'.Covers Literal.IsValueOf c d := by
  cases s with
  | empty loc => exact .ok h
  | declaration loc ty names => exact .ok h
  | expression loc e =>
    obtain ⟨hloc, c₁, he, hmark⟩ := h
    exact (Expr.resolve_covers he depth).bind fun _ he => .ok ⟨hloc, c₁, he, hmark⟩
  | read loc names => exact .ok h
  | write loc exprs =>
    obtain ⟨hloc, c₁, c₂, hword, hexprs, hmark⟩ := h
    have hresolved : Gives (exprs.mapM (Expr.resolve limit depth)) fun exprs' =>
        Listed (Expr.Covers Literal.IsValueOf) exprs' c₁.skipGap c₂ := by
      refine Listed.mapM ?_ hexprs
      exact fun _ _ _ he => Expr.resolve_covers he depth
    exact hresolved.bind fun _ hexprs => .ok ⟨hloc, c₁, c₂, hword, hexprs, hmark⟩
  | block loc body =>
    obtain ⟨hloc, c₁, c₂, hleft, hbody, hright⟩ := h
    have hbody := Stmt.resolveAll_covers hbody (depth + 1)
    exact (Gives.nested limit depth loc hbody).bind fun _ hbody =>
      .ok ⟨hloc, c₁, c₂, hleft, hbody, hright⟩
  | ifThen loc cond onTrue =>
    obtain ⟨hloc, c₁, c₂, c₃, hword, ⟨b₁, b₂, hleft, hcond, hright⟩, htrue, hend⟩ := h
    refine (Expr.resolve_covers hcond depth).bind fun _ hcond => ?_
    have htrue := Stmt.resolve_covers htrue (depth + 1)
    exact (Gives.nested limit depth _ htrue).bind fun _ htrue =>
      .ok ⟨hloc, c₁, c₂, c₃, hword, ⟨b₁, b₂, hleft, hcond, hright⟩, htrue, hend⟩
  | ifElse loc cond onTrue onFalse =>
    obtain ⟨hloc, c₁, c₂, c₃, c₄, hword, ⟨b₁, b₂, hleft, hcond, hright⟩, htrue, helse, hfalse⟩ := h
    refine (Expr.resolve_covers hcond depth).bind fun _ hcond => ?_
    have htrue := Stmt.resolve_covers htrue (depth + 1)
    have hfalse := Stmt.resolve_covers hfalse (depth + 1)
    refine (Gives.nested limit depth _ htrue).bind fun _ htrue => ?_
    exact (Gives.nested limit depth _ hfalse).bind fun _ hfalse =>
      .ok ⟨hloc, c₁, c₂, c₃, c₄, hword, ⟨b₁, b₂, hleft, hcond, hright⟩, htrue, helse, hfalse⟩
  | whileDo loc cond body =>
    obtain ⟨hloc, c₁, c₂, hword, ⟨b₁, b₂, hleft, hcond, hright⟩, hbody⟩ := h
    refine (Expr.resolve_covers hcond depth).bind fun _ hcond => ?_
    have hbody := Stmt.resolve_covers hbody (depth + 1)
    exact (Gives.nested limit depth _ hbody).bind fun _ hbody =>
      .ok ⟨hloc, c₁, c₂, hword, ⟨b₁, b₂, hleft, hcond, hright⟩, hbody⟩
  | doWhile loc body cond =>
    obtain ⟨hloc, c₁, c₂, c₃, c₄, hword, hbody, hagain, ⟨b₁, b₂, hleft, hcond, hright⟩, hmark⟩ := h
    have hbody := Stmt.resolve_covers hbody (depth + 1)
    refine (Gives.nested limit depth _ hbody).bind fun _ hbody => ?_
    exact (Expr.resolve_covers hcond depth).bind fun _ hcond =>
      .ok ⟨hloc, c₁, c₂, c₃, c₄, hword, hbody, hagain, ⟨b₁, b₂, hleft, hcond, hright⟩, hmark⟩

theorem Stmt.resolveAll_covers {body : List (Stmt Lexeme)} {c d : Cursor}
    (h : Stmt.CoversAll Eq body c d) (depth : Nat) :
    Gives (Stmt.resolveAll limit depth body) fun body' =>
      Stmt.CoversAll Literal.IsValueOf body' c d := by
  cases body with
  | nil => exact .ok h
  | cons s rest =>
    obtain ⟨c₁, hs, hrest⟩ := h
    refine (Stmt.resolve_covers hs depth).bind fun _ hs => ?_
    exact (Stmt.resolveAll_covers hrest depth).bind fun _ hrest => .ok ⟨c₁, hs, hrest⟩

end

/-- **A parsed program covers its source**: its statements stand one behind the
other, and nothing but gaps is around them. -/
theorem Program.covers_of_parse {source : String} {program : Program}
    (h : parseWithin limit source = .ok program) :
    ∃ d, Stmt.CoversAll Literal.IsValueOf program (Cursor.ofChars source.toList).skipGap d ∧
      d.skipGap.rest = [] := by
  obtain ⟨body, hbody, hresolve⟩ := exists_of_parseWithin h
  obtain ⟨r, hrun, rfl⟩ := Option.map_eq_some_iff.mp hbody
  obtain ⟨d, hcovers, hend⟩ := Grammar.program_covers hrun
  exact ⟨d, Stmt.resolveAll_covers hcovers 0 program hresolve, hend⟩

end

end Cairn
