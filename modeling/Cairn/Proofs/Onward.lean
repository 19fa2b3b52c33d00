import Cairn.Proofs.Places

/-!
# Cairn — parsers that stay in their text

A parser only ever moves onward in its text: what it reads is ahead of where it starts, and
so are the points at which it notes that it has failed. The farthest of these points is
where a syntax error is reported, with the word that stands there.

## Main definitions

* `Parser.Onward` — a parser that stays in its text, also when it fails.

## Main statements

* `Grammar.program_onward` — the grammar stays in the text.
* `syntaxError_quotes`     — a syntax error quotes the text that it marks.
-/

namespace Cairn

-- ---------------------------------------------------------------------------
-- Parsers that stay in their text
-- ---------------------------------------------------------------------------

/-- What the parser reads is ahead of where it starts, and the points at which it notes
that it has failed are points of the text. -/
structure Parser.Onward {α : Type} (p : Parser α) : Prop where
  run : ∀ (c : Cursor) (a : α) (d : Cursor), p.run c = some (a, d) → c.Precedes d
  trace : ∀ (start c : Cursor) (t : Attempts), start.Precedes c → start.Precedes t.reached →
    start.Precedes (p.trace c t).reached

namespace Parser.Onward

variable {α β : Type}

theorem word (measure : List Char → Option Nat) : (Parser.word measure).Onward where
  run _ _ _ hrun := (offset_of_word hrun).1
  trace _ _ _ _ ht := ht

theorem endOfText : Parser.endOfText.Onward where
  run c _ d hrun := by
    obtain ⟨-, heq⟩ := Option.ite_none_right_eq_some.mp hrun
    cases heq
    exact .refl c
  trace _ _ _ _ ht := ht

theorem fail : (Parser.fail : Parser α).Onward where
  run _ _ _ hrun := by cases hrun
  trace _ _ _ _ ht := ht

theorem pure (a : α) : (Parser.pure a).Onward where
  run c _ _ hrun := by
    cases hrun
    exact .refl c
  trace _ _ _ _ ht := ht

theorem map {p : Parser α} (h : p.Onward) {f : α → β} : (f <$> p).Onward where
  run c _ d hrun := by
    obtain ⟨a, ha, -⟩ := run_map hrun
    exact h.run c a d ha
  trace := h.trace

theorem located {p : Parser (Location → α)} (h : p.Onward) : p.located.Onward where
  run c _ d hrun := by
    obtain ⟨f, hf, -⟩ := run_located hrun
    exact h.run c f d hf
  trace := h.trace

theorem seq {p : Parser (α → β)} {q : Parser α} (hp : p.Onward) (hq : q.Onward) :
    (p <*> q).Onward where
  run c _ d hrun := by
    obtain ⟨f, c₁, a, hf, ha, -⟩ := run_seq hrun
    exact (hp.run c f c₁ hf).skipGap.trans (hq.run _ a d ha)
  trace start c t hc ht := by
    show start.Precedes ((Parser.seq p fun _ => q).trace c t).reached
    unfold Parser.seq
    dsimp only
    split
    · exact hp.trace start c t hc ht
    · next f c₁ hf =>
      exact hq.trace start _ _ (hc.trans (hp.run c f c₁ hf).skipGap) (hp.trace start c t hc ht)

theorem seqLeft {p : Parser α} {q : Parser β} (hp : p.Onward) (hq : q.Onward) :
    (p <* q).Onward :=
  (hp.map (f := fun a _ => a)).seq hq

theorem seqRight {p : Parser α} {q : Parser β} (hp : p.Onward) (hq : q.Onward) :
    (p *> q).Onward :=
  (hp.map (f := fun _ b => b)).seq hq

theorem orElse {p q : Parser α} (hp : p.Onward) (hq : q.Onward) : (p <|> q).Onward where
  run c a d hrun := by
    rcases run_orElse hrun with hrun | hrun
    · exact hp.run c a d hrun
    · exact hq.run c a d hrun
  trace start c t hc ht := by
    show start.Precedes ((Parser.orElse p fun _ => q).trace c t).reached
    unfold Parser.orElse
    dsimp only
    split
    · exact hp.trace start c t hc ht
    · exact hq.trace start c _ hc (hp.trace start c t hc ht)

theorem optional {p : Parser α} (h : p.Onward) : p.optional.Onward where
  run c _ d hrun := by
    rcases run_optional hrun with ⟨a, -, ha⟩ | ⟨-, rfl, -⟩
    · exact h.run c a d ha
    · exact .refl _
  trace := h.trace

theorem roundsRun {p : Parser α} (h : p.Onward) (n : Nat) (c : Cursor) :
    c.Precedes (p.roundsRun n c).2 := by
  induction n generalizing c with
  | zero => exact .refl c
  | succ n ih =>
    rw [Parser.roundsRun]
    split
    · exact .refl c
    · next a d ha => exact c.precedes_skipGap.trans ((h.run _ a d ha).trans (ih d))

theorem roundsTrace {p : Parser α} (h : p.Onward) (n : Nat) {start c : Cursor} {t : Attempts}
    (hc : start.Precedes c) (ht : start.Precedes t.reached) :
    start.Precedes (p.roundsTrace n c t).reached := by
  induction n generalizing c t with
  | zero => exact ht
  | succ n ih =>
    have htrace := h.trace start _ t hc.skipGap ht
    rw [Parser.roundsTrace]
    split
    · exact htrace
    · next a d ha => exact ih (hc.skipGap.trans (h.run _ a d ha)) htrace

theorem many {p : Parser α} (h : p.Onward) : p.many.Onward where
  run c as d hrun := by
    simp only [Parser.many] at hrun
    split at hrun
    · cases hrun
      exact .refl c
    · next a c₁ ha =>
      cases hrun
      exact (h.run c a c₁ ha).trans (h.roundsRun _ c₁)
  trace start c t hc ht := by
    have htrace := h.trace start c t hc ht
    unfold Parser.many
    dsimp only
    split
    · exact htrace
    · next a c₁ ha => exact h.roundsTrace _ (hc.trans (h.run c a c₁ ha)) htrace

/-- A rule that fails is noted where it starts, or what is on record stays. -/
theorem reached_record (r : Rule) (c : Cursor) (before after : Attempts) :
    (Attempts.record r c before after).reached = after.reached ∨
      (Attempts.record r c before after).reached = c := by
  unfold Attempts.record
  dsimp only
  split
  · exact .inl rfl
  · split
    · exact .inr rfl
    · split
      · exact .inr rfl
      · exact .inl rfl

theorem rule {p : Parser α} (h : p.Onward) (r : Rule) : (p.rule r).Onward where
  run := h.run
  trace start c t hc ht := by
    have htrace := h.trace start c t hc ht
    unfold Parser.rule
    dsimp only
    split
    · exact htrace
    · rcases reached_record r c t (p.trace c t) with hsame | hhere
      · rw [hsame]
        exact htrace
      · rw [hhere]
        exact hc

end Parser.Onward

-- ---------------------------------------------------------------------------
-- The grammar
-- ---------------------------------------------------------------------------

namespace Grammar

open Cairn.Parser

theorem symbol_onward (text : String) : (symbol text).Onward := .word _

theorem keyword_onward (k : Keyword) : (keyword k).Onward := .rule (.word _) _

theorem ident_onward : ident.Onward := .rule (.located (.map (.word _))) _

theorem unaryOp_onward (op : UnaryOp) : (unaryOp op).Onward := .rule (.located (.map (.word _))) _

theorem anyBinaryOp_onward : anyBinaryOp.Onward := by
  unfold anyBinaryOp
  induction BinaryOp.all with
  | nil => exact .fail
  | cons op others ih => exact .orElse (.rule (.map (symbol_onward _)) _) ih

theorem literal_onward (r : Rule) {value : Parser Lexeme} (h : value.Onward) :
    (literal r value).Onward :=
  .rule (.located h.map) r

variable {e : Parser (Expr Lexeme)} {s : Parser (Stmt Lexeme)}

theorem primary_onward (he : e.Onward) : (primary e).Onward := by
  have hword : ∀ (r : Rule) (f : List Char → Lexeme) (measure : List Char → Option Nat),
      (literal r (f <$> .word measure)).Onward := fun r f measure =>
    literal_onward r (.map (.word measure))
  have hbool : bool.Onward :=
    literal_onward _ (.orElse (keyword_onward _).map (keyword_onward _).map)
  have hgroup : (group e).Onward :=
    .rule (.located (.seqLeft (.map (.seqRight (symbol_onward _) he)) (symbol_onward _))) _
  exact (hword _ _ _).orElse <| (hword _ _ _).orElse <| (hword _ _ _).orElse <|
    hbool.orElse <| ident_onward.map.orElse hgroup

theorem operand_onward (he : e.Onward) : (operand e).Onward :=
  ((unaryOp_onward .neg).orElse (unaryOp_onward .not)).many.map.seq (primary_onward he)

theorem binary_onward (he : e.Onward) : (binary e).Onward :=
  ((operand_onward he).map.seq (anyBinaryOp_onward.map.seq (operand_onward he)).many).rule _

theorem ternary_onward (he : e.Onward) : (ternary e).Onward := by
  have hbranches : (Prod.mk <$> (symbol "?" *> e) <*> (symbol ":" *> e)).Onward :=
    ((symbol_onward _).seqRight he).map.seq ((symbol_onward _).seqRight he)
  exact (((binary_onward he).map.seq hbranches.optional).located).rule _

theorem assignment_onward (he : e.Onward) : (assignment e).Onward := by
  have hsign : (Parser.rule .assignOp (.word Word.assignOp)).Onward := .rule (.word _) _
  exact ((ident_onward.map.seqLeft hsign).seq he).located.rule _

theorem expr_onward (n : Nat) : (expr n).Onward := by
  induction n with
  | zero => exact .fail
  | succ n ih =>
    have h := ((assignment_onward ih).orElse (ternary_onward ih)).rule .expr
    exact ⟨h.run, h.trace⟩

theorem commaList_onward {α : Type} {p : Parser α} (hp : p.Onward) : (commaList p).Onward :=
  hp.map.seq ((symbol_onward _).seqRight hp).many

theorem typeName_onward : typeName.Onward :=
  ((keyword_onward _).map.orElse <| (keyword_onward _).map.orElse <|
    (keyword_onward _).map.orElse (keyword_onward _).map).rule _

theorem condition_onward (he : e.Onward) : (condition e).Onward :=
  ((symbol_onward _).seqRight he).seqLeft (symbol_onward _)

theorem block_onward (hs : s.Onward) : (block s).Onward :=
  (((symbol_onward _).seqRight hs.many).map.seqLeft (symbol_onward _)).located.rule _

theorem declaration_onward : declaration.Onward :=
  ((typeName_onward.map.seq (commaList_onward ident_onward)).seqLeft
    (symbol_onward _)).located.rule _

theorem read_onward : read.Onward :=
  (((keyword_onward _).seqRight (commaList_onward ident_onward)).map.seqLeft
    (symbol_onward _)).located.rule _

theorem write_onward (he : e.Onward) : (write e).Onward :=
  (((keyword_onward _).seqRight (commaList_onward he)).map.seqLeft (symbol_onward _)).located.rule _

theorem ifStmt_onward (he : e.Onward) (hs : s.Onward) : (ifStmt e s).Onward := by
  have hcond := (keyword_onward .if).seqRight (condition_onward he)
  have hother := ((keyword_onward .else).seqRight hs).optional
  exact ((hcond.map.seq hs).seq hother).located.rule _

theorem whileDo_onward (he : e.Onward) (hs : s.Onward) : (whileDo e s).Onward := by
  have hcond := (keyword_onward .while).seqRight (condition_onward he)
  exact (hcond.map.seq hs).located.rule _

theorem doWhile_onward (he : e.Onward) (hs : s.Onward) : (doWhile e s).Onward := by
  have hbody := (keyword_onward .do).seqRight hs
  have hcond := (keyword_onward .while).seqRight (condition_onward he)
  exact ((hbody.map.seq hcond).seqLeft (symbol_onward _)).located.rule _

theorem statement_onward (n : Nat) : (statement n).Onward := by
  induction n with
  | zero => exact .fail
  | succ n ih =>
    have he := expr_onward (n + 1)
    have hempty : empty.Onward := (symbol_onward _).map.located.rule _
    have hexpression : (expression (expr (n + 1))).Onward :=
      (he.map.seqLeft (symbol_onward _)).located.rule _
    have h := hempty.orElse <| (block_onward ih).orElse <| declaration_onward.orElse <|
      read_onward.orElse <| (write_onward he).orElse <| (ifStmt_onward he ih).orElse <|
      (whileDo_onward he ih).orElse <| (doWhile_onward he ih).orElse hexpression
    exact ⟨h.run, h.trace⟩

/-- **The grammar stays in the text.** -/
theorem program_onward (n : Nat) : (program n).Onward :=
  (((Onward.pure id).seq (statement_onward (n + 1)).many).seqLeft
    (Onward.endOfText.rule .endOfInput)).rule _

end Grammar

-- ---------------------------------------------------------------------------
-- The word in the way
-- ---------------------------------------------------------------------------

theorem frontWord_isPrefixOf (cs : List Char) : frontWord cs <+: cs := by
  unfold frontWord
  split
  · exact List.take_prefix 1 cs
  · exact List.takeWhile_prefix _

theorem frontWord_eq_nil {cs : List Char} : frontWord cs = [] ↔ cs = [] := by
  refine ⟨fun h => ?_, ?_⟩
  · unfold frontWord at h
    split at h
    · cases cs with
      | nil => rfl
      | cons c cs => cases h
    · next hword => exact absurd h hword
  · rintro rfl
    rfl

/-- What is reported as found is the text that the location marks, in quotes. Nothing is
marked only at the end of the source, which is reported as such. -/
def Location.Quotes (loc : Location) (source : List Char) (found : String) : Prop :=
  ∃ text, loc.Marks source text ∧
    (loc.span.start = loc.span.stop ↔ found = "end of input") ∧
    (found = "end of input" → loc.span.start = utf8Length source) ∧
    (found ≠ "end of input" → found = "'" ++ String.ofList text ++ "'")

theorem quoted_ne_endOfInput (text : List Char) :
    "'" ++ String.ofList text ++ "'" ≠ "end of input" := by
  intro h
  have hfirst := congrArg (fun s : String => s.toList.head?) h
  simp at hfirst

/-- The location from a point of the text to the end of the word there. -/
theorem Cursor.quotes_frontWord {source : List Char} {c : Cursor}
    (hc : (Cursor.ofChars source).Precedes c) :
    (c.upTo (c.advance (frontWord c.rest).length)).Quotes source
      (if (frontWord c.rest).isEmpty then "end of input"
        else "'" ++ String.ofList (frontWord c.rest) ++ "'") := by
  obtain ⟨text, hrest, hmarks⟩ := marks_upTo hc (c.precedes_advance (frontWord c.rest).length)
  have hword : text = frontWord c.rest := by
    have htake := List.prefix_iff_eq_take.mp (frontWord_isPrefixOf c.rest)
    have hsplit : c.rest = frontWord c.rest ++ c.rest.drop (frontWord c.rest).length := by
      conv_lhs => rw [← List.take_append_drop (frontWord c.rest).length c.rest, ← htake]
    exact List.append_cancel_right (hrest.symm.trans hsplit)
  obtain ⟨before, after, hsource, hspan, hline, hcolumn⟩ := hmarks
  refine ⟨text, ⟨before, after, hsource, hspan, hline, hcolumn⟩, ?_⟩
  rw [hspan, ← hword]
  by_cases hnil : text = []
  · have hend : c.rest = [] := frontWord_eq_nil.mp (hword ▸ hnil)
    have hstart : c.offset = utf8Length before := congrArg Span.start hspan
    have hwhole : utf8Length before = utf8Length source := by
      have hoffset := hc.offset_add
      rw [hend, hstart] at hoffset
      exact hoffset.trans (Nat.zero_add _)
    rw [hnil]
    exact ⟨iff_of_true rfl rfl, fun _ => hwhole, fun hne => absurd rfl hne⟩
  · have hpos := utf8Length_pos hnil
    rw [if_neg (by simpa using hnil)]
    refine ⟨?_, fun hend => absurd hend (quoted_ne_endOfInput text), fun _ => rfl⟩
    refine iff_of_false ?_ (quoted_ne_endOfInput text)
    show utf8Length before ≠ utf8Length before + utf8Length text
    omega

theorem syntaxError_quotes (source : List Char) :
    ∃ expected found, (syntaxError source).fault = .unexpected expected found ∧
      (syntaxError source).loc.Quotes source found := by
  have hreached := (Grammar.program_onward source.length).trace (.ofChars source)
    (.ofChars source) (.start (.ofChars source)) (.refl _) (.refl _)
  exact ⟨_, _, rfl, Cursor.quotes_frontWord hreached⟩

end Cairn
