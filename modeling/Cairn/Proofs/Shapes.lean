import Cairn.Proofs.Building
import Cairn.Proofs.Extents
import Cairn.Proofs.Thresholds

/-!
# Cairn — the shapes of records

Two parsers *agree* if they read the same stretches of text and what they make of
them is related. The grammar that builds trees and the one that leaves records agree,
rule by rule, and the relation says of each record what the pass over it gives: the
resolved tree. So no record that the grammar leaves has a shape without a use, and
the errors that the pass keeps for such shapes are never given.

## Main statements

* `Grammar.expr_parallel`, `Grammar.statement_parallel` — trees and records, rule by rule.
* `Program.buildWithin_eq` — parsing through records is parsing.
* `Program.grammar_keeps_promise` — once the grammar accepts a text, only a number or
  the nesting can be wrong with it.
-/

namespace Cairn

-- ---------------------------------------------------------------------------
-- Parsers that agree
-- ---------------------------------------------------------------------------

namespace Parser

/-- The parsers read the same stretches, from where no gap is in front, and `R`
relates what they make of a stretch. -/
def Parallel {α β : Type} (R : α → β → Cursor → Cursor → Prop) (p : Parser α) (q : Parser β) :
    Prop :=
  ∀ c, c.Ready → (p.run c = none ∧ q.run c = none) ∨
    ∃ a b d, p.run c = some (a, d) ∧ q.run c = some (b, d) ∧ R a b c d

namespace Parallel

variable {α β γ : Type}

theorem mono {R R' : α → β → Cursor → Cursor → Prop} {p : Parser α} {q : Parser β}
    (h : Parallel R p q) (hR : ∀ a b c d, R a b c d → R' a b c d) : Parallel R' p q := by
  intro c hc
  rcases h c hc with hnone | ⟨a, b, d, hp, hq, hrel⟩
  · exact .inl hnone
  · exact .inr ⟨a, b, d, hp, hq, hR a b c d hrel⟩

theorem rule {R : α → β → Cursor → Cursor → Prop} {p : Parser α} {q : Parser β}
    (h : Parallel R p q) (r : Rule) : Parallel R (p.rule r) q := h

/-- What is known of one of the parsers can be used for both. -/
theorem and_finds {R : α → β → Cursor → Cursor → Prop} {S : α → Cursor → Cursor → Prop}
    {p : Parser α} {q : Parser β} (h : Parallel R p q) (hp : p.Finds S) :
    Parallel (fun a b c d => R a b c d ∧ S a c d) p q := by
  intro c hc
  rcases h c hc with hnone | ⟨a, b, d, hrun, hq, hrel⟩
  · exact .inl hnone
  · exact .inr ⟨a, b, d, hrun, hq, hrel, hp c a d hc hrun⟩

theorem map {R : α → β → Cursor → Cursor → Prop} {R' : γ → β → Cursor → Cursor → Prop}
    {p : Parser α} {q : Parser β} {f : α → γ} (h : Parallel R p q)
    (hR : ∀ a b c d, R a b c d → R' (f a) b c d) : Parallel R' (f <$> p) q := by
  intro c hc
  rcases h c hc with ⟨hp, hq⟩ | ⟨a, b, d, hp, hq, hrel⟩
  · exact .inl ⟨Option.map_eq_none_iff.mpr hp, hq⟩
  · exact .inr ⟨f a, b, d, Option.map_eq_some_iff.mpr ⟨_, hp, rfl⟩, hq, hR a b c d hrel⟩

theorem located {R : (Location → α) → β → Cursor → Cursor → Prop}
    {R' : α → β → Cursor → Cursor → Prop} {p : Parser (Location → α)} {q : Parser β}
    (h : Parallel R p q) (hR : ∀ f b c d, R f b c d → R' (f (c.upTo d)) b c d) :
    Parallel R' p.located q := by
  intro c hc
  rcases h c hc with ⟨hp, hq⟩ | ⟨f, b, d, hp, hq, hrel⟩
  · exact .inl ⟨Option.map_eq_none_iff.mpr hp, hq⟩
  · exact .inr ⟨_, b, d, Option.map_eq_some_iff.mpr ⟨_, hp, rfl⟩, hq, hR f b c d hrel⟩

theorem pair {R R' : α → List Pair → Cursor → Cursor → Prop} {p : Parser α}
    {q : Parser (List Pair)} {label : Label} (h : Parallel R p q)
    (hR : ∀ a pairs c d, R a pairs c d →
      R' a [.node label (c.upTo d) (c.textUpTo d) pairs] c d) :
    Parallel R' p (Pairs.pair label q) := by
  intro c hc
  rcases h c hc with ⟨hp, hq⟩ | ⟨a, pairs, d, hp, hq, hrel⟩
  · exact .inl ⟨hp, Option.map_eq_none_iff.mpr hq⟩
  · exact .inr ⟨a, _, d, hp, Option.map_eq_some_iff.mpr ⟨_, hq, rfl⟩, hR a pairs c d hrel⟩

theorem run_seq_none {p : Parser (α → β)} {q : Parser α} {c : Cursor} (h : p.run c = none) :
    (p <*> q).run c = none := by
  show (Parser.seq p fun _ => q).run c = none
  simp only [Parser.seq, h]

theorem run_seq_some {p : Parser (α → β)} {q : Parser α} {c d : Cursor} {f : α → β}
    (h : p.run c = some (f, d)) :
    (p <*> q).run c = (q.run d.skipGap).map fun r => (f r.1, r.2) := by
  show (Parser.seq p fun _ => q).run c = _
  simp only [Parser.seq, h]

theorem seq {R₁ : (α → γ) → List Pair → Cursor → Cursor → Prop}
    {R₂ : α → List Pair → Cursor → Cursor → Prop} {R : γ → List Pair → Cursor → Cursor → Prop}
    {p : Parser (α → γ)} {p' : Parser α} {q q' : Parser (List Pair)} (h₁ : Parallel R₁ p q)
    (h₂ : Parallel R₂ p' q') (hR : ∀ f a pairs pairs' c c₁ d, R₁ f pairs c c₁ →
      R₂ a pairs' c₁.skipGap d → R (f a) (pairs ++ pairs') c d) :
    Parallel R (p <*> p') (q ++ q') := by
  intro c hc
  show _ ∧ (List.append <$> q <*> q').run c = none ∨
    ∃ a b d, _ ∧ (List.append <$> q <*> q').run c = some (b, d) ∧ _
  rcases h₁ c hc with ⟨hp, hq⟩ | ⟨f, pairs, c₁, hp, hq, hrel⟩
  · exact .inl ⟨run_seq_none hp, run_seq_none (Option.map_eq_none_iff.mpr hq)⟩
  · rw [run_seq_some hp, run_seq_some (Option.map_eq_some_iff.mpr ⟨_, hq, rfl⟩)]
    rcases h₂ c₁.skipGap c₁.ready_skipGap with ⟨hp', hq'⟩ | ⟨a, pairs', d, hp', hq', hrel'⟩
    · rw [hp', hq']
      exact .inl ⟨rfl, rfl⟩
    · rw [hp', hq']
      exact .inr ⟨f a, _, d, rfl, rfl, hR f a pairs pairs' c c₁ d hrel hrel'⟩

/-- Two values put together, and the records of both. -/
theorem mapSeq {δ : Type} {R₁ : α → List Pair → Cursor → Cursor → Prop}
    {R₂ : γ → List Pair → Cursor → Cursor → Prop} {R : δ → List Pair → Cursor → Cursor → Prop}
    {p : Parser α} {p' : Parser γ} {q q' : Parser (List Pair)} {f : α → γ → δ}
    (h₁ : Parallel R₁ p q) (h₂ : Parallel R₂ p' q')
    (hR : ∀ a b pairs pairs' c c₁ d, R₁ a pairs c c₁ → R₂ b pairs' c₁.skipGap d →
      R (f a b) (pairs ++ pairs') c d) : Parallel R (f <$> p <*> p') (q ++ q') := by
  have hfirst : Parallel (fun g pairs c c₁ => ∃ a, g = f a ∧ R₁ a pairs c c₁) (f <$> p) q :=
    h₁.map fun a pairs c c₁ hrel => ⟨a, rfl, hrel⟩
  refine hfirst.seq h₂ ?_
  rintro _ b pairs pairs' c c₁ d ⟨a, rfl, hrel⟩ hrel'
  exact hR a b pairs pairs' c c₁ d hrel hrel'

theorem orElse {R : α → β → Cursor → Cursor → Prop} {p p' : Parser α} {q q' : Parser β}
    (h : Parallel R p q) (h' : Parallel R p' q') : Parallel R (p <|> p') (q <|> q') := by
  intro c hc
  show (Parser.orElse p fun _ => p').run c = none ∧ (Parser.orElse q fun _ => q').run c = none ∨
    ∃ a b d, (Parser.orElse p fun _ => p').run c = some (a, d) ∧
      (Parser.orElse q fun _ => q').run c = some (b, d) ∧ R a b c d
  rcases h c hc with ⟨hp, hq⟩ | ⟨a, b, d, hp, hq, hrel⟩
  · simp only [Parser.orElse, hp, hq]
    exact h' c hc
  · simp only [Parser.orElse, hp, hq]
    exact .inr ⟨a, b, d, rfl, rfl, hrel⟩

/-- One or nothing, where nothing leaves no record. -/
theorem optional {R : α → List Pair → Cursor → Cursor → Prop} {p : Parser α}
    {q : Parser (List Pair)} (h : Parallel R p q) :
    Parallel (fun found pairs c d => (found = none ∧ pairs = []) ∨
      ∃ a, found = some a ∧ R a pairs c d) p.optional (Pairs.maybe q) := by
  intro c hc
  refine .inr ?_
  have hmaybe : ∀ {o : Option (List Pair)} {d : Cursor}, q.optional.run c = some (o, d) →
      (Pairs.maybe q).run c = some (o.getD [], d) := fun hrun =>
    Option.map_eq_some_iff.mpr ⟨_, hrun, rfl⟩
  rcases h c hc with ⟨hp, hq⟩ | ⟨a, pairs, d, hp, hq, hrel⟩
  · have hrun : q.optional.run c = some (none, c) := by simp only [Parser.optional, hq]
    exact ⟨none, [], c, by simp only [Parser.optional, hp], hmaybe hrun, .inl ⟨rfl, rfl⟩⟩
  · have hrun : q.optional.run c = some (some pairs, d) := by simp only [Parser.optional, hq]
    exact ⟨some a, pairs, d, by simp only [Parser.optional, hp], hmaybe hrun,
      .inr ⟨a, rfl, hrel⟩⟩

theorem rounds {R : α → β → Prop} {p : Parser α} {q : Parser β}
    (h : Parallel (fun a b _ _ => R a b) p q) (n : Nat) (c : Cursor) :
    (p.roundsRun n c).2 = (q.roundsRun n c).2 ∧
      List.Forall₂ R (p.roundsRun n c).1 (q.roundsRun n c).1 := by
  induction n generalizing c with
  | zero => exact ⟨rfl, .nil⟩
  | succ n ih =>
    rw [Parser.roundsRun, Parser.roundsRun]
    rcases h c.skipGap c.ready_skipGap with ⟨hp, hq⟩ | ⟨a, b, d, hp, hq, hrel⟩
    · rw [hp, hq]
      exact ⟨rfl, .nil⟩
    · rw [hp, hq]
      exact ⟨(ih d).1, .cons hrel (ih d).2⟩

/-- As many as there are, with their records one behind the other. -/
theorem many {R : α → List Pair → Prop} {p : Parser α} {q : Parser (List Pair)}
    (h : Parallel (fun a pairs _ _ => R a pairs) p q) :
    Parallel (fun as pairs _ _ => ∃ each, pairs = List.flatten each ∧ List.Forall₂ R as each)
      p.many (Pairs.many q) := by
  intro c hc
  refine .inr ?_
  rcases h c hc with ⟨hp, hq⟩ | ⟨a, b, d, hp, hq, hrel⟩
  · have hrun : q.many.run c = some ([], c) := by simp only [Parser.many, hq]
    exact ⟨[], [], c, by simp only [Parser.many, hp], Option.map_eq_some_iff.mpr ⟨_, hrun, rfl⟩,
      [], rfl, .nil⟩
  · obtain ⟨hend, hrounds⟩ := h.rounds c.rest.length d
    have hrun : q.many.run c =
        some (b :: (q.roundsRun c.rest.length d).1, (q.roundsRun c.rest.length d).2) := by
      simp only [Parser.many, hq]
    refine ⟨a :: (p.roundsRun c.rest.length d).1, _, (q.roundsRun c.rest.length d).2, ?_,
      Option.map_eq_some_iff.mpr ⟨_, hrun, rfl⟩, _, rfl, .cons hrel hrounds⟩
    simp only [Parser.many, hp, hend]

/-- A word, and the text of the stretch that it takes up. -/
theorem word (measure : List Char → Option Nat) :
    Parallel (fun cs pairs c d => cs = c.textUpTo d ∧ pairs = []) (.word measure)
      (Pairs.silent measure) := by
  intro c _
  cases hmeasure : measure c.rest with
  | none =>
    have hrun : (Parser.word measure).run c = none := Option.map_eq_none_iff.mpr hmeasure
    exact .inl ⟨hrun, Option.map_eq_none_iff.mpr hrun⟩
  | some n =>
    have hrun : (Parser.word measure).run c = some (c.rest.take n, c.advance n) :=
      Option.map_eq_some_iff.mpr ⟨n, hmeasure, rfl⟩
    refine .inr ⟨_, [], _, hrun, Option.map_eq_some_iff.mpr ⟨_, hrun, rfl⟩, ?_, rfl⟩
    rw [Cursor.textUpTo, Cursor.rest_advance, List.length_drop, List.take_eq_take_iff]
    omega

end Parallel

end Parser

-- ---------------------------------------------------------------------------
-- Words
-- ---------------------------------------------------------------------------

/-- A single pair, which stands for the value. -/
def Pairs.One {α : Type} (R : Pair → α → Prop) (a : α) (pairs : List Pair) : Prop :=
  ∃ pair, pairs = [pair] ∧ R pair a

theorem Pairs.forall₂_flatten {α : Type} {R : Pair → α → Prop} {as : List α}
    {each : List (List Pair)} (h : List.Forall₂ (One R) as each) :
    List.Forall₂ R each.flatten as := by
  induction h with
  | nil => exact .nil
  | cons hone _ ih =>
    obtain ⟨pair, rfl, hpair⟩ := hone
    exact .cons hpair ih

namespace Parser.Parallel

variable {α β : Type} {R : α → List Pair → Prop} {p : Parser α} {q : Parser (List Pair)}

/-- A rule that knows where it stands. -/
theorem node {P : Pair → α → Prop} {p : Parser (Location → α)} {label : Label}
    (h : Parallel (fun f pairs c d =>
      ∀ text, P (.node label (c.upTo d) text pairs) (f (c.upTo d))) p q) :
    Parallel (fun a pairs _ _ => Pairs.One P a pairs) p.located (Pairs.pair label q) := by
  have hlocated : Parallel (fun a pairs c d => ∀ text, P (.node label (c.upTo d) text pairs) a)
      p.located q :=
    h.located fun _ _ _ _ hrel => hrel
  exact hlocated.pair fun a pairs c d hrel => ⟨_, rfl, hrel _⟩

/-- A word that is a rule of its own. -/
theorem atom (r : Rule) (measure : List Char → Option Nat) :
    Parallel (fun cs pairs c d => pairs = [.node (.rule r) (c.upTo d) cs []]) (.word measure)
      (Pairs.atom r measure) := by
  refine (word measure).pair ?_
  rintro cs pairs c d ⟨rfl, rfl⟩
  rfl

theorem mark (text : String) :
    Parallel (fun _ pairs _ _ => pairs = []) (Grammar.symbol text) (Pairs.mark text) :=
  (word _).mono fun _ _ _ _ hrel => hrel.2

/-- A mark in front leaves nothing behind. -/
theorem marked (h : Parallel (fun a pairs _ _ => R a pairs) p q) (text : String) :
    Parallel (fun a pairs _ _ => R a pairs) (Grammar.symbol text *> p) (Pairs.mark text ++ q) := by
  refine (mark text).mapSeq h ?_
  rintro _ a _ pairs c c₁ d rfl hrel
  exact hrel

/-- Neither does a mark behind. -/
theorem closed (h : Parallel (fun a pairs _ _ => R a pairs) p q) (text : String) :
    Parallel (fun a pairs _ _ => R a pairs) (p <* Grammar.symbol text) (q ++ Pairs.mark text) := by
  refine h.mapSeq (mark text) ?_
  rintro a _ pairs _ c c₁ d hrel rfl
  rwa [List.append_nil]

theorem keyword (k : Keyword) :
    Parallel (fun _ pairs _ _ => ∃ word : Pair, pairs = [word] ∧ word.label = .rule (.keyword k))
      (Grammar.keyword k) (Pairs.keyword k) := by
  refine Parallel.rule ((atom (.keyword k) (Word.keyword k)).mono ?_) _
  rintro cs pairs c d rfl
  exact ⟨_, rfl, rfl⟩

/-- A reserved word in front is a pair of its own. -/
theorem worded (h : Parallel (fun a pairs _ _ => R a pairs) p q) (k : Keyword) :
    Parallel (fun a pairs _ _ => ∃ (word : Pair) (rest : List Pair), pairs = word :: rest ∧
      word.label = .rule (.keyword k) ∧ R a rest) (Grammar.keyword k *> p)
      (Pairs.keyword k ++ q) := by
  refine (keyword k).mapSeq h ?_
  rintro _ a _ pairs c c₁ d ⟨word, rfl, hword⟩ hrel
  exact ⟨word, pairs, rfl, hword, hrel⟩

theorem ident :
    Parallel (fun x pairs _ _ => Pairs.One Pair.IsName x pairs) Grammar.ident Pairs.ident := by
  refine Parallel.rule (Parallel.located
    (R := fun f pairs c d => Pairs.One Pair.IsName (f (c.upTo d)) pairs)
    ((atom .ident Word.ident).map ?_) fun _ _ _ _ hrel => hrel) _
  rintro cs pairs c d rfl
  exact ⟨_, rfl, rfl, rfl, rfl⟩

theorem sign (op : UnaryOp) :
    Parallel (fun sign pairs _ _ => Pairs.One Pair.IsSign sign pairs) (Grammar.unaryOp op)
      (Pairs.sign op) := by
  refine Parallel.rule (Parallel.located
    (R := fun f pairs c d => Pairs.One Pair.IsSign (f (c.upTo d)) pairs)
    ((atom (.unary op) (Word.unaryOp op)).map ?_) fun _ _ _ _ hrel => hrel) _
  rintro cs pairs c d rfl
  exact ⟨_, rfl, rfl, rfl⟩

theorem operator (op : BinaryOp) :
    Parallel (fun op pairs _ _ =>
      Pairs.One (fun pair op => pair.label = .rule (.operator op)) op pairs)
      (Grammar.binaryOp op) (Pairs.operator op) := by
  refine Parallel.rule ((atom (.operator op) (Word.symbol op.text)).map ?_) _
  rintro cs pairs c d rfl
  exact ⟨_, rfl, rfl⟩

theorem anyOperator :
    Parallel (fun op pairs _ _ =>
      Pairs.One (fun pair op => pair.label = .rule (.operator op)) op pairs)
      Grammar.anyBinaryOp Pairs.anyOperator := by
  unfold Grammar.anyBinaryOp Pairs.anyOperator
  induction BinaryOp.all with
  | nil => exact fun c _ => .inl ⟨rfl, rfl⟩
  | cons op others ih => exact (operator op).orElse ih

/-- One or more, with commas between them. -/
theorem commaList {P : Pair → α → Prop}
    (h : Parallel (fun a pairs _ _ => Pairs.One P a pairs) p q) :
    Parallel (fun as pairs _ _ => List.Forall₂ P pairs as) (Grammar.commaList p)
      (Pairs.commaList q) := by
  refine h.mapSeq (h.marked ",").many ?_
  rintro a as _ _ c c₁ d ⟨pair, rfl, hpair⟩ ⟨each, rfl, heach⟩
  exact .cons hpair (Pairs.forall₂_flatten heach)

end Parser.Parallel

-- ---------------------------------------------------------------------------
-- Expressions
-- ---------------------------------------------------------------------------

/-- What operators apply to: a pair that is no operator, and an expression that every
operator takes whole. -/
structure Pair.IsPrimary (pair : Pair) (e : Expr Lexeme) : Prop where
  affix : Affix.of? pair.label = none
  builds : pair.Builds e
  isLeftOf : ∀ op, e.IsLeftOf op

/-- An expression, its pair, and the stretch that the pair stands for. The expression
itself may end earlier. -/
def Pairs.ReadsExpr (e : Expr Lexeme) (pairs : List Pair) (c d : Cursor) : Prop :=
  ∃ pair : Pair, pairs = [pair] ∧ pair.IsExpr e ∧ pair.loc = c.upTo d ∧ ∃ c₁, e.loc = c.upTo c₁

namespace Grammar

open Cairn.Parser

/-- A literal and its pair. -/
theorem literal_parallel {r : Rule} {value : Parser Lexeme} {q : Parser (List Pair)}
    (haffix : Affix.of? (.rule r) = none)
    (h : Parallel (fun lexeme pairs c d => ∀ loc, Pair.Builds
      (.node (.rule r) loc (c.textUpTo d) pairs) (.literal loc lexeme)) value q) :
    Parallel (fun e pairs _ _ => Pairs.One Pair.IsPrimary e pairs) (literal r value)
      (Pairs.pair (.rule r) q) := by
  have hvalue : Parallel (fun (f : Location → Expr Lexeme) pairs c d =>
      Pair.Builds (.node (.rule r) (c.upTo d) (c.textUpTo d) pairs) (f (c.upTo d)) ∧
        ∀ loc op, (f loc).IsLeftOf op)
      ((fun value loc => Expr.literal loc value) <$> value) q :=
    h.map fun lexeme pairs c d hrel => ⟨hrel _, fun _ _ => trivial⟩
  have hlocated : Parallel (fun (e : Expr Lexeme) pairs c d =>
      Pair.Builds (.node (.rule r) (c.upTo d) (c.textUpTo d) pairs) e ∧ ∀ op, e.IsLeftOf op)
      ((fun value loc => Expr.literal loc value) <$> value).located q :=
    hvalue.located fun f pairs c d hrel => ⟨hrel.1, hrel.2 _⟩
  exact (hlocated.pair fun e pairs c d hrel => ⟨_, rfl, haffix, hrel.1, hrel.2⟩).rule r

theorem float_parallel :
    Parallel (fun e pairs _ _ => Pairs.One Pair.IsPrimary e pairs) float
      (Pairs.atom .float Word.float) := by
  refine literal_parallel rfl ((Parallel.word Word.float).map ?_)
  rintro cs pairs c d ⟨rfl, rfl⟩ loc
  exact .float _ []

theorem int_parallel :
    Parallel (fun e pairs _ _ => Pairs.One Pair.IsPrimary e pairs) int
      (Pairs.atom .int Word.int) := by
  refine literal_parallel rfl ((Parallel.word Word.int).map ?_)
  rintro cs pairs c d ⟨rfl, rfl⟩ loc
  exact .int _ []

theorem bool_parallel :
    Parallel (fun e pairs _ _ => Pairs.One Pair.IsPrimary e pairs) bool Pairs.bool := by
  refine literal_parallel rfl (Parallel.orElse ((Parallel.keyword .true).map ?_)
    ((Parallel.keyword .false).map ?_))
  · rintro _ pairs c d ⟨word, rfl, hword⟩ loc
    exact .bool hword
  · rintro _ pairs c d ⟨word, rfl, hword⟩ loc
    exact .bool hword

theorem string_parallel :
    Parallel (fun e pairs _ _ => Pairs.One Pair.IsPrimary e pairs) string Pairs.string := by
  intro c _
  cases hword : Word.string c.rest with
  | none =>
    refine .inl ⟨?_, Option.map_eq_none_iff.mpr hword⟩
    show ((((Word.string c.rest).map _).map _).map _).map _ = none
    rw [hword]
    rfl
  | some n =>
    refine .inr ⟨_, _, c.advance n, ?_, Option.map_eq_some_iff.mpr ⟨n, hword, rfl⟩, _, rfl,
      rfl, .string _ _, fun _ => trivial⟩
    show ((((Word.string c.rest).map _).map _).map _).map _ = _
    rw [hword]
    rfl

theorem name_parallel :
    Parallel (fun e pairs _ _ => Pairs.One Pair.IsPrimary e pairs) name Pairs.ident := by
  refine Parallel.ident.map ?_
  rintro x pairs c d ⟨pair, rfl, hname⟩
  exact ⟨pair, rfl, by rw [hname.label]; rfl, .name hname, fun _ => trivial⟩

variable {e : Parser (Expr Lexeme)} {q : Parser (List Pair)}

theorem one_of_readsExpr (he : Parallel Pairs.ReadsExpr e q) :
    Parallel (fun e pairs _ _ => Pairs.One Pair.IsExpr e pairs) e q := by
  refine he.mono ?_
  rintro x _ c d ⟨pair, rfl, hpair, -⟩
  exact ⟨pair, rfl, hpair⟩

theorem group_parallel (he : Parallel Pairs.ReadsExpr e q) :
    Parallel (fun e pairs _ _ => Pairs.One Pair.IsPrimary e pairs) (group e) (Pairs.group q) := by
  have hinner : Parallel (fun (f : Location → Expr Lexeme) pairs _ _ =>
      ∀ loc text, Pair.IsPrimary (.node (.rule .group) loc text pairs) (f loc))
      ((fun inner loc => .group loc inner) <$> (symbol "(" *> e)) (Pairs.mark "(" ++ q) := by
    refine ((one_of_readsExpr he).marked "(").map ?_
    rintro x _ c d ⟨pair, rfl, hpair⟩ loc text
    exact ⟨rfl, .group hpair, fun _ => trivial⟩
  exact Parallel.rule (Parallel.node ((hinner.closed ")").mono fun _ _ _ _ hrel => hrel _)) _

theorem primary_parallel (he : Parallel Pairs.ReadsExpr e q) :
    Parallel (fun e pairs _ _ => Pairs.One Pair.IsPrimary e pairs) (primary e) (Pairs.primary q) :=
  float_parallel.orElse <| int_parallel.orElse <| string_parallel.orElse <| bool_parallel.orElse <|
    name_parallel.orElse (group_parallel he)

theorem operand_parallel (he : Parallel Pairs.ReadsExpr e q) :
    Parallel (fun e pairs _ _ => Pairs.IsOperand pairs e) (operand e) (Pairs.operand q) := by
  refine ((Parallel.sign .neg).orElse (Parallel.sign .not)).many.mapSeq (primary_parallel he) ?_
  rintro ops inner _ _ c c₁ d ⟨signs, rfl, hsigns⟩ ⟨primary, rfl, hprimary⟩
  exact ⟨⟨_, primary, ops, inner, rfl, Pairs.forall₂_flatten hsigns, hprimary.affix,
    hprimary.builds, rfl⟩, Expr.isLeftOf_ofOperand hprimary.isLeftOf⟩

/-- An operator and its right operand. -/
theorem link_parallel (he : Parallel Pairs.ReadsExpr e q) :
    Parallel (fun next pairs _ _ => ∃ operator operand, pairs = operator :: operand ∧
      operator.label = .rule (.operator next.1) ∧ Pairs.IsOperand operand next.2)
      (Prod.mk <$> anyBinaryOp <*> operand e) (Pairs.anyOperator ++ Pairs.operand q) := by
  refine Parallel.anyOperator.mapSeq (operand_parallel he) ?_
  rintro op right _ operand c c₁ d ⟨operator, rfl, hlabel⟩ hoperand
  exact ⟨operator, operand, rfl, hlabel, hoperand⟩

theorem areLinks_flatten {more : List (BinaryOp × Expr Lexeme)} {each : List (List Pair)}
    (h : List.Forall₂ (fun next pairs => ∃ operator operand, pairs = operator :: operand ∧
      operator.label = .rule (.operator next.1) ∧ Pairs.IsOperand operand next.2) more each) :
    Pairs.AreLinks each.flatten more := by
  induction h with
  | nil => exact .nil
  | cons hlink _ ih =>
    obtain ⟨operator, operand, rfl, hlabel, hoperand⟩ := hlink
    exact .cons hlabel hoperand ih

theorem binary_parallel (he : Parallel Pairs.ReadsExpr e q) :
    Parallel (fun e pairs _ _ => Pairs.One Pair.IsExpr e pairs) (binary e) (Pairs.binary q) := by
  have hchain : Parallel (fun e pairs _ _ => ∀ loc text,
      Pair.IsExpr (.node (.rule .binary) loc text pairs) e)
      (Expr.ofChain <$> operand e <*> .many (Prod.mk <$> anyBinaryOp <*> operand e))
      (Pairs.operand q ++ Pairs.many (Pairs.anyOperator ++ Pairs.operand q)) := by
    refine (operand_parallel he).mapSeq (link_parallel he).many ?_
    rintro first more pairs _ c c₁ d hfirst ⟨each, rfl, heach⟩ loc text
    exact .binary hfirst (areLinks_flatten heach)
  exact (hchain.pair fun x pairs c d hrel => ⟨_, rfl, hrel _ _⟩).rule _

theorem ternary_parallel (he : Parallel Pairs.ReadsExpr e q) :
    Parallel (fun e pairs _ _ => Pairs.One Pair.IsExpr e pairs) (ternary e) (Pairs.ternary q) := by
  have hone := one_of_readsExpr he
  have hbranches : Parallel (fun branches pairs _ _ => ∃ second third, pairs = [second, third] ∧
      second.IsExpr branches.1 ∧ third.IsExpr branches.2)
      (Prod.mk <$> (symbol "?" *> e) <*> (symbol ":" *> e))
      ((Pairs.mark "?" ++ q) ++ (Pairs.mark ":" ++ q)) := by
    refine (hone.marked "?").mapSeq (hone.marked ":") ?_
    rintro onTrue onFalse _ _ c c₁ d ⟨second, rfl, hsecond⟩ ⟨third, rfl, hthird⟩
    exact ⟨second, third, rfl, hsecond, hthird⟩
  refine Parallel.rule (Parallel.node ((binary_parallel he).mapSeq hbranches.optional ?_)) _
  rintro cond found _ _ c c₁ d ⟨first, rfl, hfirst⟩ hfound text
  rcases hfound with ⟨rfl, rfl⟩ | ⟨branches, rfl, second, third, rfl, hsecond, hthird⟩
  · exact .ternary_none hfirst
  · exact .ternary_some hfirst hsecond hthird

theorem assignment_parallel (he : Parallel Pairs.ReadsExpr e q) :
    Parallel (fun e pairs _ _ => Pairs.One Pair.IsExpr e pairs) (assignment e)
      (Pairs.assignment q) := by
  have htarget : Parallel (fun (f : Expr Lexeme → Location → Expr Lexeme) pairs _ _ =>
      ∃ x target, f = (fun value loc => .assign loc x value) ∧ pairs = [target] ∧
        target.IsName x)
      ((fun target value loc => .assign loc target value) <$> ident) Pairs.ident := by
    refine Parallel.ident.map ?_
    rintro x _ c d ⟨target, rfl, hname⟩
    exact ⟨x, target, rfl, rfl, hname⟩
  have hfront : Parallel (fun (f : Expr Lexeme → Location → Expr Lexeme) pairs _ _ =>
      ∃ x target sign, f = (fun value loc => .assign loc x value) ∧ pairs = [target, sign] ∧
        target.IsName x ∧ sign.label = .rule .assignOp)
      ((fun target value loc => .assign loc target value) <$>
        ident <* .rule .assignOp (.word Word.assignOp))
      (Pairs.ident ++ Pairs.atom .assignOp Word.assignOp) := by
    refine htarget.mapSeq ((Parallel.atom .assignOp Word.assignOp).rule _) ?_
    rintro _ _ _ _ c c₁ d ⟨x, target, rfl, rfl, hname⟩ rfl
    exact ⟨x, target, _, rfl, rfl, hname, rfl⟩
  refine Parallel.rule (Parallel.node (hfront.seq he ?_)) _
  rintro _ value _ _ c c₁ d ⟨x, target, sign, rfl, rfl, hname, hsign⟩
    ⟨pair, rfl, hpair, hloc, c₂, hstart⟩ text
  refine .assignment hname hsign hpair ?_
  rw [hloc, hstart]
  rfl

/-- **Trees and records of expressions.** -/
theorem expr_parallel (n : Nat) : Parallel Pairs.ReadsExpr (expr n) (Pairs.expr n) := by
  induction n with
  | zero => exact fun c _ => .inl ⟨rfl, rfl⟩
  | succ n ih =>
    have hparts := ((assignment_parallel ih).orElse (ternary_parallel ih)).and_finds
      ((assignment_finds (expr_finds n)).orElse (ternary_finds (expr_finds n)))
    refine hparts.pair ?_
    rintro x _ c d ⟨⟨pair, rfl, hpair⟩, c₁, hcovers, -⟩
    exact ⟨_, rfl, hpair.expr, rfl, c₁, hcovers.loc_eq⟩

-- ---------------------------------------------------------------------------
-- Statements
-- ---------------------------------------------------------------------------

theorem typeName_parallel :
    Parallel (fun ty pairs _ _ => Pairs.One Pair.IsType ty pairs) typeName Pairs.typeName := by
  have hword : ∀ (k : Keyword) (ty : Ty), (∀ word : Pair, word.label = .rule (.keyword k) →
      ∀ loc text, Pair.IsType (.node (.rule .typeName) loc text [word]) ty) →
      Parallel (fun ty pairs _ _ =>
        ∀ loc text, Pair.IsType (.node (.rule .typeName) loc text pairs) ty)
        ((fun _ => ty) <$> keyword k) (Pairs.keyword k) := by
    intro k ty htype
    refine (Parallel.keyword k).map ?_
    rintro _ _ c d ⟨word, rfl, hlabel⟩
    exact htype word hlabel
  have hwords := (hword .int .int fun _ h _ _ => .word h rfl).orElse <|
    (hword .float .float fun _ h _ _ => .word h rfl).orElse <|
    (hword .bool .bool fun _ h _ _ => .word h rfl).orElse
    (hword .string .string fun _ h _ _ => .word h rfl)
  exact (hwords.pair fun ty pairs c d hrel => ⟨_, rfl, hrel _ _⟩).rule _

/-- What agrees for a statement: it is what is built from its pair. -/
abbrev ParallelStmt (p : Parser (Stmt Lexeme)) (q : Parser (List Pair)) : Prop :=
  Parallel (fun s pairs _ _ => Pairs.One Pair.IsStatement s pairs) p q

theorem empty_parallel : ParallelStmt empty Pairs.empty := by
  refine Parallel.rule (Parallel.node ((Parallel.mark ";").map ?_)) _
  rintro _ _ c d rfl text
  exact .empty

theorem declaration_parallel : ParallelStmt declaration Pairs.declaration := by
  have hparts : Parallel (fun (f : Location → Stmt Lexeme) pairs _ _ => ∀ loc text,
      Pair.IsStatement (.node (.rule .declaration) loc text pairs) (f loc))
      ((fun ty names loc => .declaration loc ty names) <$> typeName <*> commaList ident)
      (Pairs.typeName ++ Pairs.commaList Pairs.ident) := by
    refine typeName_parallel.mapSeq Parallel.ident.commaList ?_
    rintro ty names _ pairs c c₁ d ⟨first, rfl, hfirst⟩ hnames loc text
    exact .declaration hfirst hnames
  exact Parallel.rule (Parallel.node ((hparts.closed ";").mono fun _ _ _ _ hrel => hrel _)) _

theorem read_parallel : ParallelStmt read Pairs.read := by
  have hparts : Parallel (fun (f : Location → Stmt Lexeme) pairs _ _ => ∀ loc text,
      Pair.IsStatement (.node (.rule .read) loc text pairs) (f loc))
      ((fun names loc => .read loc names) <$> (keyword .read *> commaList ident))
      (Pairs.keyword .read ++ Pairs.commaList Pairs.ident) := by
    refine (Parallel.ident.commaList.worded .read).map ?_
    rintro names _ c d ⟨word, rest, rfl, hword, hnames⟩ loc text
    exact .read hword hnames
  exact Parallel.rule (Parallel.node ((hparts.closed ";").mono fun _ _ _ _ hrel => hrel _)) _

theorem write_parallel (he : Parallel Pairs.ReadsExpr e q) :
    ParallelStmt (write e) (Pairs.write q) := by
  have hparts : Parallel (fun (f : Location → Stmt Lexeme) pairs _ _ => ∀ loc text,
      Pair.IsStatement (.node (.rule .write) loc text pairs) (f loc))
      ((fun exprs loc => .write loc exprs) <$> (keyword .write *> commaList e))
      (Pairs.keyword .write ++ Pairs.commaList q) := by
    refine ((one_of_readsExpr he).commaList.worded .write).map ?_
    rintro exprs _ c d ⟨word, rest, rfl, hword, hexprs⟩ loc text
    exact .write hword hexprs
  exact Parallel.rule (Parallel.node ((hparts.closed ";").mono fun _ _ _ _ hrel => hrel _)) _

theorem expression_parallel (he : Parallel Pairs.ReadsExpr e q) :
    ParallelStmt (expression e) (Pairs.expression q) := by
  have hparts : Parallel (fun (f : Location → Stmt Lexeme) pairs _ _ => ∀ loc text,
      Pair.IsStatement (.node (.rule .expression) loc text pairs) (f loc))
      ((fun e loc => .expression loc e) <$> e) q := by
    refine (one_of_readsExpr he).map ?_
    rintro x _ c d ⟨pair, rfl, hpair⟩ loc text
    exact .expression hpair
  exact Parallel.rule (Parallel.node ((hparts.closed ";").mono fun _ _ _ _ hrel => hrel _)) _

theorem condition_parallel (he : Parallel Pairs.ReadsExpr e q) :
    Parallel (fun e pairs _ _ => Pairs.One Pair.IsExpr e pairs) (condition e) (Pairs.condition q) :=
  ((one_of_readsExpr he).marked "(").closed ")"

variable {s : Parser (Stmt Lexeme)} {r : Parser (List Pair)}

theorem block_parallel (hs : ParallelStmt s r) : ParallelStmt (block s) (Pairs.block r) := by
  have hparts : Parallel (fun (f : Location → Stmt Lexeme) pairs _ _ => ∀ loc text,
      Pair.IsStatement (.node (.rule .block) loc text pairs) (f loc))
      ((fun body loc => .block loc body) <$> (symbol "\x7b" *> .many s))
      (Pairs.mark "\x7b" ++ Pairs.many r) := by
    refine (hs.many.marked "\x7b").map ?_
    rintro body _ c d ⟨each, rfl, heach⟩ loc text
    exact .block (Pairs.forall₂_flatten heach)
  exact Parallel.rule (Parallel.node ((hparts.closed "\x7d").mono fun _ _ _ _ hrel => hrel _)) _

/-- The pairs are those of a conditional statement as far as its second branch, which
`f` waits for: without one they are complete, and with one they go on with its word and it. -/
def Branches (f : Option (Stmt Lexeme) → Location → Stmt Lexeme) (pairs : List Pair)
    (_ _ : Cursor) : Prop :=
  (∀ loc text, Pair.IsStatement (.node (.rule .ifStmt) loc text pairs) (f none loc)) ∧
  ∀ (other third : Pair) (onFalse : Stmt Lexeme), other.label = .rule (.keyword .else) →
    third.IsStatement onFalse → ∀ loc text, Pair.IsStatement
      (.node (.rule .ifStmt) loc text (pairs ++ [other, third])) (f (some onFalse) loc)

theorem ifStmt_parallel (he : Parallel Pairs.ReadsExpr e q) (hs : ParallelStmt s r) :
    ParallelStmt (ifStmt e s) (Pairs.ifStmt q r) := by
  refine Parallel.rule (Parallel.node (Parallel.seq (?front : Parallel Branches _ _)
    (hs.worded .else).optional ?_)) _
  case front =>
    refine ((condition_parallel he).worded .if).mapSeq hs ?_
    rintro cond onTrue _ _ c c₁ d ⟨word, _, rfl, hword, first, rfl, hcond⟩ ⟨second, rfl, htrue⟩
    refine ⟨fun loc text => .ifThen hword hcond htrue, ?_⟩
    intro other third onFalse hother hfalse loc text
    exact .ifElse hword hother hcond htrue hfalse
  rintro f found pairs _ c c₁ d ⟨hnone, hsome⟩ hfound text
  rcases hfound with ⟨rfl, rfl⟩ | ⟨onFalse, rfl, other, _, rfl, hother, third, rfl, hfalse⟩
  · rw [List.append_nil]
    exact hnone _ text
  · exact hsome other third onFalse hother hfalse _ text

theorem whileDo_parallel (he : Parallel Pairs.ReadsExpr e q) (hs : ParallelStmt s r) :
    ParallelStmt (whileDo e s) (Pairs.whileDo q r) := by
  refine Parallel.rule (Parallel.node (((condition_parallel he).worded .while).mapSeq hs ?_)) _
  rintro cond body _ _ c c₁ d ⟨word, _, rfl, hword, first, rfl, hcond⟩ ⟨second, rfl, hbody⟩ text
  exact .whileDo hword hcond hbody

theorem doWhile_parallel (he : Parallel Pairs.ReadsExpr e q) (hs : ParallelStmt s r) :
    ParallelStmt (doWhile e s) (Pairs.doWhile q r) := by
  have hparts : Parallel (fun (f : Location → Stmt Lexeme) pairs _ _ => ∀ loc text,
      Pair.IsStatement (.node (.rule .doWhile) loc text pairs) (f loc))
      ((fun body cond loc => .doWhile loc body cond) <$>
        (keyword .do *> s) <*> (keyword .while *> condition e))
      ((Pairs.keyword .do ++ r) ++ (Pairs.keyword .while ++ Pairs.condition q)) := by
    refine (hs.worded .do).mapSeq ((condition_parallel he).worded .while) ?_
    rintro body cond _ _ c c₁ d ⟨word, _, rfl, hword, first, rfl, hbody⟩
      ⟨again, _, rfl, hagain, second, rfl, hcond⟩ loc text
    exact .doWhile hword hagain hbody hcond
  exact Parallel.rule (Parallel.node ((hparts.closed ";").mono fun _ _ _ _ hrel => hrel _)) _

/-- **Trees and records of statements.** -/
theorem statement_parallel (n : Nat) : ParallelStmt (statement n) (Pairs.statement n) := by
  induction n with
  | zero => exact fun c _ => .inl ⟨rfl, rfl⟩
  | succ n ih =>
    have he := expr_parallel (n + 1)
    exact empty_parallel.orElse <| (block_parallel ih).orElse <| declaration_parallel.orElse <|
      read_parallel.orElse <| (write_parallel he).orElse <| (ifStmt_parallel he ih).orElse <|
      (whileDo_parallel he ih).orElse <| (doWhile_parallel he ih).orElse (expression_parallel he)

theorem endOfInput_parallel :
    Parallel (fun _ pairs _ _ => Pairs.One (fun pair _ => pair.label = .rule .endOfInput) () pairs)
      (.rule .endOfInput .endOfText)
      (Pairs.pair (.rule .endOfInput) ((fun _ => []) <$> .endOfText)) := by
  have hend : Parallel (fun _ pairs _ _ => pairs = ([] : List Pair)) .endOfText
      ((fun _ => []) <$> .endOfText) := by
    intro c _
    cases hrun : Parser.endOfText.run c with
    | none => exact .inl ⟨rfl, Option.map_eq_none_iff.mpr hrun⟩
    | some r => exact .inr ⟨(), [], r.2, rfl, Option.map_eq_some_iff.mpr ⟨r, hrun, rfl⟩, rfl⟩
  exact (hend.pair fun _ pairs c d _ => ⟨_, rfl, rfl⟩).rule _

/-- Nothing is read in front of a text but the gap there. -/
theorem run_pure_seqLeft {α β : Type} (p : Parser α) (q : Parser β) (c : Cursor) :
    (Parser.pure id <*> p <* q).run c = (p <* q).run c.skipGap := by
  show (Parser.seq (Parser.map _ (Parser.seq (.pure id) fun _ => p)) fun _ => q).run c =
    (Parser.seq (Parser.map _ p) fun _ => q).run c.skipGap
  simp only [Parser.seq, Parser.map, Parser.pure]
  cases p.run c.skipGap <;> rfl

theorem run_pure_append (p q : Parser (List Pair)) (c : Cursor) :
    (Parser.pure [] ++ p ++ q).run c = (p ++ q).run c.skipGap := by
  show (Parser.seq (Parser.map _ (Parser.seq (Parser.map _ (.pure [])) fun _ => p))
    fun _ => q).run c = (Parser.seq (Parser.map _ p) fun _ => q).run c.skipGap
  simp only [Parser.seq, Parser.map, Parser.pure, Option.map_some]
  cases p.run c.skipGap <;> rfl

/-- **Trees and records of whole texts.** -/
theorem program_parallel (n : Nat) (c : Cursor) :
    ((program n).run c = none ∧ (Pairs.program n).run c = none) ∨
    ∃ body pair pairs last d, (program n).run c = some (body, d) ∧
      (Pairs.program n).run c = some ([pair], d) ∧ pair.inner = pairs ++ [last] ∧
      List.Forall₂ Pair.IsStatement pairs body ∧ last.label = .rule .endOfInput := by
  have hwhole : Parallel (fun body pairs _ _ => ∃ inner last, pairs = inner ++ [last] ∧
      List.Forall₂ Pair.IsStatement inner body ∧ last.label = .rule .endOfInput)
      (.many (statement (n + 1)) <* .rule .endOfInput .endOfText)
      (Pairs.many (Pairs.statement (n + 1)) ++
        Pairs.pair (.rule .endOfInput) ((fun _ => []) <$> .endOfText)) := by
    refine (statement_parallel (n + 1)).many.mapSeq endOfInput_parallel ?_
    rintro body _ _ _ c c₁ d ⟨each, rfl, heach⟩ ⟨last, rfl, hlast⟩
    exact ⟨_, last, rfl, Pairs.forall₂_flatten heach, hlast⟩
  have htree := run_pure_seqLeft (.many (statement (n + 1))) (.rule .endOfInput .endOfText) c
  have hpairs := run_pure_append (Pairs.many (Pairs.statement (n + 1)))
    (Pairs.pair (.rule .endOfInput) ((fun _ => []) <$> .endOfText)) c
  rcases hwhole c.skipGap c.ready_skipGap with
    ⟨hp, hq⟩ | ⟨body, _, d, hp, hq, inner, last, rfl, hinner, hlast⟩
  · exact .inl ⟨htree.trans hp, Option.map_eq_none_iff.mpr (hpairs.trans hq)⟩
  · exact .inr ⟨body, _, inner, last, d, htree.trans hp,
      Option.map_eq_some_iff.mpr ⟨_, hpairs.trans hq, rfl⟩, rfl, hinner, hlast⟩

end Grammar

-- ---------------------------------------------------------------------------
-- Whole texts
-- ---------------------------------------------------------------------------

/-- **Parsing through records is parsing.** The pass over the record never gets stuck. -/
theorem Program.buildWithin_eq (limit : Nat) (source : String) :
    buildWithin limit source = some (parseWithin limit source) := by
  unfold buildWithin parseWithin recognize
  cases Nesting.check limit source.toList with
  | some e => rfl
  | none =>
    rcases Grammar.program_parallel source.toList.length (.ofChars source.toList) with
      ⟨hp, hq⟩ | ⟨body, pair, pairs, last, d, hp, hq, hinner, hbody, hlast⟩
    · rw [hp, hq]
      rfl
    · rw [hp, hq]
      have hfiller : last.label.isFiller = true := by
        rw [hlast]
        rfl
      have hrun : Build.each Part.statement (Part.telling (Pair.parts limit pairs)) 0 =
          some (Stmt.resolveAll limit 0 body, 0) :=
        Pair.IsStatement.all_runs hbody limit 0
      show (Build.each Part.statement (Part.telling (Pair.parts limit pair.inner)) 0).map _ = _
      rw [hinner, Part.telling_append_filler limit hfiller, hrun]
      rfl

-- The errors for a shape without a use say that well-formed input, or more input, was
-- expected. The words of the grammar's own errors open with other letters.

theorem Rule.concept_opens (r : Rule) :
    ∃ c, r.concept.toList.head? = some c ∧ c ≠ 'w' ∧ c ≠ 'm' := by
  have hopens : r.concept.toList.head? ∈ ['l', 'i', 't', 'e', 'o', '\'', 's'].map some := by
    cases r with
    | keyword k => cases k <;> decide
    | unary op => cases op <;> decide
    | operator op => cases op <;> decide
    | _ => decide
  obtain ⟨c, hc, heq⟩ := List.mem_map.mp hopens
  refine ⟨c, heq.symm, ?_, ?_⟩
  · rintro rfl
    exact absurd hc (by decide)
  · rintro rfl
    exact absurd hc (by decide)

/-- A list opens as its first member does. -/
theorem Rule.listing_cons {text : String} {c : Char} (h : text.toList.head? = some c)
    (others : List String) : (listing (text :: others)).toList.head? = some c := by
  cases others with
  | nil => exact h
  | cons second others =>
    have hintercalate : ∀ texts : List (List Char),
        ((", ".toList).intercalate (text.toList :: texts)).head? = some c := by
      intro texts
      cases texts with
      | nil => rw [List.intercalate_singleton, h]
      | cons next texts =>
        rw [List.intercalate_cons_cons, List.append_assoc, List.head?_append, h]
        rfl
    show (", ".intercalate (text :: (second :: others).dropLast) ++ " or " ++ _).toList.head? = _
    rw [String.toList_append, String.toList_append, String.toList_intercalate, List.map_cons,
      List.append_assoc, List.head?_append, hintercalate]
    rfl

theorem Rule.expected_opens (rules : List Rule) :
    ∃ c, (Rule.expected rules).toList.head? = some c ∧ c ≠ 'w' ∧ c ≠ 'm' := by
  unfold Rule.expected
  cases hconcepts : ((Rule.all.filter rules.contains).map Rule.concept).eraseDups with
  | nil => exact ⟨'s', by decide, by decide, by decide⟩
  | cons text others =>
    have hmem : text ∈ ((Rule.all.filter rules.contains).map Rule.concept).eraseDups := by
      rw [hconcepts]
      exact List.mem_cons_self
    obtain ⟨r, -, rfl⟩ := List.mem_map.mp (List.mem_eraseDups.mp hmem)
    obtain ⟨c, hc, hne⟩ := r.concept_opens
    exact ⟨c, Rule.listing_cons hc others, hne⟩

theorem fault_of_resolveAll {limit : Nat} {body : List (Stmt Lexeme)} {error : ParseError}
    (h : Stmt.resolveAll limit 0 body = .error error) :
    (∃ text, error.fault = .badNumber text) ∨ error.fault = .tooDeep (limit + 1) limit := by
  have hpersists := Stmt.resolveAll_persists (Nat.le_refl limit) body (Nat.zero_le limit)
  rw [h] at hpersists
  cases hpersists with
  | badNumber text loc => exact .inl ⟨text, rfl⟩
  | tooDeep loc y => exact .inr rfl

/-- **The grammar keeps what it promises.** The pass over the record of a text never gets
stuck, and no error of its own comes out of it. Once the grammar accepts a text, only a
number or the nesting can be wrong with it. -/
theorem Program.grammar_keeps_promise (limit : Nat) (source : String) :
    buildWithin limit source = some (parseWithin limit source) ∧
    (∀ expected found loc, parseWithin limit source = .error ⟨.unexpected expected found, loc⟩ →
      expected ≠ "well-formed input" ∧ expected ≠ "more input") ∧
    ((recognize source.toList).isSome → ∀ error, parseWithin limit source = .error error →
      (∃ text, error.fault = .badNumber text) ∨ error.fault = .tooDeep (limit + 1) limit) := by
  refine ⟨Program.buildWithin_eq limit source, ?_, ?_⟩
  · intro expected found loc h
    rcases parseWithin_cases limit source with ⟨e, hcheck, h'⟩ | ⟨-, ⟨-, h'⟩ | ⟨body, -, h'⟩⟩
    · obtain ⟨before, c, after, -, -, rfl⟩ := Nesting.stops_of_check hcheck
      cases h.symm.trans h'
    · obtain ⟨rules, rfl⟩ : ∃ rules, expected = Rule.expected rules := by
        cases h.symm.trans h'
        exact ⟨_, rfl⟩
      obtain ⟨c, hc, hw, hm⟩ := Rule.expected_opens rules
      refine ⟨?_, ?_⟩
      · intro heq
        rw [heq] at hc
        exact hw (Option.some.inj hc).symm
      · intro heq
        rw [heq] at hc
        exact hm (Option.some.inj hc).symm
    · rcases fault_of_resolveAll (h'.symm.trans h) with ⟨text, htext⟩ | hdeep
      · cases htext
      · cases hdeep
  · intro hsome error h
    rcases parseWithin_cases limit source with ⟨e, hcheck, h'⟩ | ⟨-, ⟨hnone, -⟩ | ⟨body, -, h'⟩⟩
    · obtain ⟨before, c, after, -, -, rfl⟩ := Nesting.stops_of_check hcheck
      obtain rfl := Except.error.inj (h.symm.trans h')
      exact .inr rfl
    · rw [hnone] at hsome
      cases hsome
    · exact fault_of_resolveAll (h'.symm.trans h)

end Cairn
