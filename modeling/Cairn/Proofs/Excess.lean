import Cairn.Proofs.Tracking

/-!
# Cairn — where the scan finds too many levels

If the scan stops in a text that follows the grammar, it stops at one of the
words that the grammar takes up. A parser *answers* for the levels it was given
if, wherever the scan is going to stop, either the value of the parser shows
that there are too many levels, or the scan stops further on, with no unary
operator waiting and the levels otherwise as before. Signs and opening brackets
add levels, so that nothing is lost there; at whatever takes levels away, the
scan had stopped before.

## Main definitions

* `Nesting.Exceeds` — the scan finds too many levels, here or further on.
* `Parser.Answers`  — the property, combinator by combinator.

## Main statements

* `Nesting.Exceeds.operator`   — a binary minus is a level to the scan.
* `Grammar.closed_answers`     — what stands in brackets.
* `Grammar.operation_answers`  — a binary operator and its right operand.
-/

namespace Cairn

namespace Nesting

-- ---------------------------------------------------------------------------
-- One word
-- ---------------------------------------------------------------------------

/-- The levels are past the limit, now or somewhere in the text, which is quiet. -/
structure Exceeds (limit : Nat) (l : Levels) (cs : List Char) : Prop where
  isQuiet : quiet .code cs
  found : limit < l.depth ∨ ∃ p, scan limit .code l p cs ≠ none

/-- The levels that the scan counts behind a binary operator. -/
def Levels.behind (l : Levels) (op : BinaryOp) : Levels :=
  if op = .sub then l.addPending else l.settle

theorem Levels.settle_behind (l : Levels) (op : BinaryOp) : (l.behind op).settle = l.settle := by
  unfold behind
  split
  · exact l.settle_addPending
  · rfl

theorem Levels.IsSettled.depth_behind {l : Levels} (h : l.IsSettled) (op : BinaryOp) :
    (l.behind op).depth = l.depth + if op = .sub then 1 else 0 := by
  unfold behind
  split
  · rfl
  · rw [h.settle_eq]
    rfl

namespace Exceeds

variable {limit : Nat} {l : Levels} {c : Char} {cs : List Char}

/-- Nothing is found at the end of the text. -/
theorem nil (h : Exceeds limit l []) : limit < l.depth := by
  rcases h.found with hdepth | ⟨p, hp⟩
  · exact hdepth
  · exact absurd rfl hp

theorem gap (h : Exceeds limit l cs) : Exceeds limit l (cs.drop (Word.gap cs)) := by
  have hgap := Word.gapFrom_gap cs
  have hquiet := (scan_gapFrom (Nat.le_refl l.depth) hgap .code h.isQuiet {}).1
  refine ⟨hquiet, ?_⟩
  rcases Nat.lt_or_ge limit l.depth with hlt | hle
  · exact .inl hlt
  · obtain ⟨p, hp⟩ := h.found.resolve_left (Nat.not_lt_of_le hle)
    obtain ⟨-, p', heq⟩ := scan_gapFrom hle hgap .code h.isQuiet p
    exact .inr ⟨p', heq ▸ hp⟩

theorem char (hc : Single c cs) (h : Exceeds limit l (c :: cs)) :
    limit < l.depth ∨ Exceeds limit (l.step c) cs := by
  have hquiet : quiet .code cs := quiet_char hc ▸ h.isQuiet
  rcases h.found with hdepth | ⟨p, hp⟩
  · exact .inl hdepth
  · rw [scan_char hc] at hp
    split at hp
    · next hstep => exact .inr ⟨hquiet, .inl hstep⟩
    · exact .inr ⟨hquiet, .inr ⟨_, hp⟩⟩

/-- Where a character takes no level away, nothing is lost. -/
theorem char_of_le (hc : Single c cs) (hle : l.depth ≤ (l.step c).depth)
    (h : Exceeds limit l (c :: cs)) : Exceeds limit (l.step c) cs := by
  rcases h.char hc with hdepth | hstep
  · exact ⟨quiet_char hc ▸ h.isQuiet, .inl (Nat.lt_of_lt_of_le hdepth hle)⟩
  · exact hstep

theorem notEqual (h : Exceeds limit l ('!' :: '=' :: cs)) :
    limit < l.depth ∨ Exceeds limit l.settle cs := by
  have hquiet : quiet .code cs := h.isQuiet
  exact h.found.imp_right fun ⟨_, hp⟩ => ⟨hquiet, .inr ⟨_, hp⟩⟩

theorem word {word : List Char} (hword : word.all isPlain) (hne : word ≠ [])
    (h : Exceeds limit l (word ++ cs)) : limit < l.depth ∨ Exceeds limit l.settle cs := by
  induction word generalizing l with
  | nil => exact absurd rfl hne
  | cons c word ih =>
    obtain ⟨hc, hword⟩ := Bool.and_eq_true_iff.mp hword
    rcases h.char (.of_isPlain hc _) with hdepth | htail
    · exact .inl hdepth
    · rw [step_of_isPlain hc] at htail
      cases word with
      | nil => exact .inr htail
      | cons d word =>
        have hlast := ih hword (List.cons_ne_nil _ _) htail
        exact hlast.imp_left fun hdepth => Nat.lt_of_lt_of_le hdepth l.settle_depth_le

theorem string {n : Nat} (hn : Word.stringTail cs = some n) (h : Exceeds limit l ('"' :: cs)) :
    limit < l.depth ∨ Exceeds limit l.settle (cs.drop n) := by
  have hquiet : quiet .string cs := h.isQuiet
  refine h.found.imp_right fun ⟨p, hp⟩ => ?_
  obtain ⟨hquiet', p', heq⟩ := @scan_stringTail limit l cs n hn hquiet (p.next '"')
  have htail : scan limit .string l (p.next '"') cs ≠ none := hp
  exact ⟨hquiet', .inr ⟨p', heq ▸ htail⟩⟩

/-- To the scan a binary minus is one more sign, and every other operator settles
the levels. -/
theorem operator {op : BinaryOp} (hdiv : op = .div → cs.head? ≠ some '/' ∧ cs.head? ≠ some '*')
    (h : Exceeds limit l (op.text.toList ++ cs)) :
    limit < l.depth ∨ Exceeds limit (l.behind op) cs := by
  cases op with
  | sub => exact h.char (.of_ne (by decide))
  | ne => exact h.notEqual
  | div => exact h.char ⟨fun _ => hdiv rfl, fun heq => absurd heq (by decide), by decide⟩
  | _ => exact h.word rfl (List.cons_ne_nil _ _)

end Exceeds

end Nesting

open Nesting (Levels Exceeds)

-- ---------------------------------------------------------------------------
-- Answering for levels
-- ---------------------------------------------------------------------------

/-- Wherever levels `l` with `S l` are open and the limit is exceeded, here or
further on, the value of the parser satisfies `E` at the depth of `l`, or the
limit is exceeded behind it, where the levels are settled. -/
def Parser.Answers {α : Type} (p : Parser α) (limit : Nat) (S : Levels → Prop)
    (E : Nat → α → Prop) : Prop :=
  ∀ l, S l → p.Meets (Exceeds limit l) fun a cs => E l.depth a ∨ Exceeds limit l.settle cs

namespace Parser.Answers

variable {α β : Type} {limit : Nat} {S : Levels → Prop} {A : Nat → α → Prop} {E : Nat → β → Prop}

theorem map {p : Parser α} {f : α → β} (h : p.Answers limit S A) (hf : ∀ d a, A d a → E d (f a)) :
    (f <$> p).Answers limit S E := by
  intro l hl
  exact (h l hl).map fun a _ ha => ha.imp_left (hf l.depth a)

theorem mono {p : Parser α} {E : Nat → α → Prop} (h : p.Answers limit S A)
    (hE : ∀ d a, A d a → E d a) : p.Answers limit S E := by
  intro l hl
  exact (h l hl).mono fun a _ ha => ha.imp_left (hE l.depth a)

theorem orElse {p q : Parser α} (hp : p.Answers limit S A) (hq : q.Answers limit S A) :
    (p <|> q).Answers limit S A :=
  fun l hl => (hp l hl).orElse (hq l hl)

theorem rule {p : Parser α} (h : p.Answers limit S A) (r : Rule) : (p.rule r).Answers limit S A :=
  h

theorem located {p : Parser (Location → α)} (h : p.Answers limit S fun d f => ∀ loc, A d (f loc)) :
    p.located.Answers limit S A := by
  intro l hl
  exact Meets.located ((h l hl).mono fun _ _ ha loc => ha.imp_left fun hf => hf loc)

theorem exceeds_gap {E : Prop} {l : Levels} {cs : List Char} (h : E ∨ Exceeds limit l cs) :
    E ∨ Exceeds limit l (cs.drop (Word.gap cs)) :=
  h.imp_right Exceeds.gap

/-- The first parser answers for its own part whatever follows, and what the second
one answers for counts in what the first makes of it. -/
theorem seq {p : Parser (α → β)} {q : Parser α}
    (hp : p.Answers limit Levels.IsSettled fun d f => ∀ a, E d (f a))
    (hq : q.Answers limit Levels.IsSettled A) (hpq : p.Yields fun f => ∀ d a, A d a → E d (f a)) :
    (p <*> q).Answers limit Levels.IsSettled E := by
  intro l hl c b d hready hexceeds hrun
  obtain ⟨f, c', a, hf, ha, rfl⟩ := Parser.run_seq hrun
  rcases hp l hl c f c' hready hexceeds hf with hfirst | hsecond
  · exact .inl (hfirst a)
  · rw [hl.settle_eq] at hsecond
    have hanswer := hq l hl c'.skipGap a d c'.ready_skipGap hsecond.gap ha
    exact hanswer.imp_left (hpq c f c' hf l.depth a)

theorem seqLeft {p : Parser α} {q : Parser β} (hp : p.Answers limit Levels.IsSettled A)
    (hq : q.Answers limit Levels.IsSettled E) (hE : ∀ d a b, E d b → A d a) :
    (p <* q).Answers limit Levels.IsSettled A :=
  seq (hp.map fun _ _ ha _ => ha) hq ((Yields.any p).map fun a _ d b => hE d a b)

theorem seqRight {p : Parser α} {q : Parser β} (hp : p.Answers limit Levels.IsSettled A)
    (hq : q.Answers limit Levels.IsSettled E) (hA : ∀ d a b, A d a → E d b) :
    (p *> q).Answers limit Levels.IsSettled E :=
  seq (hp.map fun d a ha b => hA d a b ha) hq ((Yields.any p).map fun _ _ _ _ hb => hb)

theorem optional {p : Parser α} (h : p.Answers limit Levels.IsSettled A) :
    p.optional.Answers limit Levels.IsSettled fun d o => ∃ a ∈ o, A d a := by
  intro l hl
  refine Meets.optional ((h l hl).mono fun a _ ha => ha.imp_left fun ha => ⟨a, rfl, ha⟩) ?_
  intro cs hexceeds
  rw [hl.settle_eq]
  exact .inr hexceeds

theorem many {p : Parser α} (h : p.Answers limit Levels.IsSettled A) :
    p.many.Answers limit Levels.IsSettled fun d as => ∃ a ∈ as, A d a := by
  intro l hl
  have hround : ∀ as, p.Meets (fun cs => (∃ a ∈ as, A l.depth a) ∨ Exceeds limit l.settle cs)
      fun a cs => (∃ b ∈ as ++ [a], A l.depth b) ∨ Exceeds limit l.settle cs := by
    intro as c a d hready hbefore hrun
    rcases hbefore with ⟨b, hb, hanswer⟩ | hexceeds
    · exact .inl ⟨b, List.mem_append_left _ hb, hanswer⟩
    · rw [hl.settle_eq] at hexceeds
      have hanswer := h l hl c a d hready hexceeds hrun
      exact hanswer.imp_left fun ha => ⟨a, List.mem_append_right _ (List.mem_singleton_self a), ha⟩
  intro c as d hready hexceeds hrun
  rw [← hl.settle_eq] at hexceeds
  exact Meets.many (fun _ _ => exceeds_gap) hround c as d hready (.inr hexceeds) hrun

end Parser.Answers

-- ---------------------------------------------------------------------------
-- Words
-- ---------------------------------------------------------------------------

variable {limit : Nat} {l : Levels} {S : Levels → Prop}

theorem Parser.word_answers {measure : List Char → Option Nat}
    (h : ∀ l cs n, measure cs = some n → Exceeds limit l cs →
      limit < l.depth ∨ Exceeds limit l.settle (cs.drop n)) :
    (Parser.word measure).Answers limit S fun d _ => limit < d := by
  intro l _ c word d _ hexceeds hrun
  obtain ⟨n, hn, heq⟩ := Option.map_eq_some_iff.mp hrun
  cases heq
  exact h l c.rest n hn hexceeds

theorem Word.Plain.answers {measure : List Char → Option Nat} (h : Word.Plain measure) :
    (Parser.word measure).Answers limit S fun d _ => limit < d := by
  refine Parser.word_answers fun l cs n hn hexceeds => ?_
  obtain ⟨hne, hplain⟩ := h cs n hn
  rw [← List.take_append_drop n cs] at hexceeds
  exact hexceeds.word hplain hne

namespace Grammar

theorem keyword_answers (k : Keyword) : (keyword k).Answers limit S fun d _ => limit < d :=
  (Word.plain_keyword k).answers.rule _

theorem symbol_answers {text : String} (hne : text.toList ≠ [])
    (hplain : text.toList.all Nesting.isPlain) :
    (symbol text).Answers limit S fun d _ => limit < d :=
  (Word.plain_symbol hne hplain).answers

theorem ident_answers : ident.Answers limit S fun d _ => limit < d := by
  have hname : (Parser.word Word.ident).Answers limit S fun d _ => limit < d :=
    Word.plain_ident.answers
  exact ((hname.map fun _ _ hd _ => hd).located).rule _

theorem string_answers : (Parser.word Word.string).Answers limit S fun d _ => limit < d := by
  refine Parser.word_answers fun l cs n hn hexceeds => ?_
  obtain ⟨rest, m, rfl, hm, rfl⟩ := Word.string_eq_some hn
  show limit < l.depth ∨ Exceeds limit l.settle (rest.drop m)
  exact hexceeds.string hm

-- ---------------------------------------------------------------------------
-- Signs and brackets
-- ---------------------------------------------------------------------------

theorem unaryOp_meets (op : UnaryOp) :
    (unaryOp op).Meets (Exceeds limit l) fun _ => Exceeds limit l.addPending := by
  have hsign : (Parser.word (Word.unaryOp op)).Meets (Exceeds limit l) fun _ =>
      Exceeds limit l.addPending := by
    intro c word d _ hexceeds hrun
    obtain ⟨n, hn, heq⟩ := Option.map_eq_some_iff.mp hrun
    cases heq
    obtain ⟨c', rest, hrest, rfl, hsingle, hstep⟩ := Word.unaryOp_eq_some hn
    rw [hrest] at hexceeds
    rw [Cursor.rest_advance, hrest, ← hstep l]
    refine hexceeds.char_of_le hsingle ?_
    rw [hstep l]
    exact Nat.le_succ l.depth
  exact Parser.Meets.located (hsign.map fun _ _ h _ => h)

/-- Each sign adds a level, and all of them are over behind the operand. -/
theorem signs_meet :
    (Parser.many (unaryOp .neg <|> unaryOp .not)).Meets (Exceeds limit l) fun ops cs =>
      ∃ m : Levels, m.settle = l.settle ∧ m.depth = l.depth + ops.length ∧ Exceeds limit m cs := by
  have hround : ∀ ops : List (UnaryOp × Location), (unaryOp .neg <|> unaryOp .not).Meets
      (fun cs => ∃ m : Levels, m.settle = l.settle ∧ m.depth = l.depth + ops.length ∧
        Exceeds limit m cs)
      fun op cs => ∃ m : Levels, m.settle = l.settle ∧ m.depth = l.depth + (ops ++ [op]).length ∧
        Exceeds limit m cs := by
    intro ops c op d hready ⟨m, hm, hdepth, hexceeds⟩ hrun
    have hsign := (unaryOp_meets .neg).orElse (unaryOp_meets .not) c op d hready hexceeds hrun
    refine ⟨m.addPending, by rw [Levels.settle_addPending, hm], ?_, hsign⟩
    rw [List.length_append, ← Nat.add_assoc, ← hdepth]
    rfl
  intro c ops d hready hexceeds hrun
  refine Parser.Meets.many ?_ hround c ops d hready ⟨l, rfl, rfl, hexceeds⟩ hrun
  intro ops cs ⟨m, hm, hdepth, hexceeds⟩
  exact ⟨m, hm, hdepth, hexceeds.gap⟩

variable {α : Type} {E : Nat → α → Prop}

/-- An opening bracket adds a level. -/
theorem opened_meets {text : String} (hopen : text = "(" ∨ text = "\x7b") {p : Parser α}
    (hp : p.Answers limit Levels.IsSettled E) (l : Levels) :
    (symbol text *> p).Meets (Exceeds limit l) fun a cs =>
      E (l.depth + 1) a ∨ Exceeds limit l.openBracket cs := by
  have hbracket : (symbol text).Meets (Exceeds limit l) fun _ => Exceeds limit l.openBracket := by
    intro c word d _ hexceeds hrun
    rw [run_symbol hrun] at hexceeds
    rcases hopen with rfl | rfl
    · exact hexceeds.char_of_le (c := '(') (.of_ne (by decide)) (Nat.le_succ l.depth)
    · exact hexceeds.char_of_le (c := '\x7b') (.of_ne (by decide)) (Nat.le_succ l.depth)
  exact hbracket.seqRight (fun _ => Exceeds.gap) (hp l.openBracket rfl)

/-- A closing bracket takes the level away, unless that was one too many. -/
theorem closed_answers {text : String} (hclose : text = ")" ∨ text = "\x7d") {p : Parser α}
    (hp : ∀ l, p.Meets (Exceeds limit l) fun a cs => E l.depth a ∨ Exceeds limit l.openBracket cs)
    (hE : p.Yields fun a => ∀ d, limit < d + 1 → E d a) :
    (p <* symbol text).Answers limit S E := by
  have hbracket : ∀ m : Levels, (symbol text).Meets (Exceeds limit m) fun _ cs =>
      limit < m.depth ∨ Exceeds limit m.closeBracket cs := by
    intro m c word d _ hexceeds hrun
    rw [run_symbol hrun] at hexceeds
    rcases hclose with rfl | rfl
    · exact hexceeds.char (c := ')') (.of_ne (by decide))
    · exact hexceeds.char (c := '\x7d') (.of_ne (by decide))
  intro l _ c a d hready hexceeds hrun
  obtain ⟨c', word, ha, hword⟩ := Parser.run_seqLeft hrun
  rcases hp l c a c' hready hexceeds ha with hinside | hopen
  · exact .inl hinside
  · have hbehind := hbracket l.openBracket c'.skipGap word d c'.ready_skipGap hopen.gap hword
    exact hbehind.imp_left (hE c a c' ha l.depth)

-- ---------------------------------------------------------------------------
-- Binary operators
-- ---------------------------------------------------------------------------

/-- The right operand stands one level deeper behind a minus. -/
theorem operation_answers {p : Parser α} (hp : p.Answers limit (fun _ => True) E)
    (hstar : ∀ c tail, c.rest = '*' :: tail → p.run c = none)
    (hE : ∀ d a, limit < d → E d a) :
    (Prod.mk <$> anyBinaryOp <*> p).Answers limit Levels.IsSettled fun d next =>
      E (d + if next.1 = .sub then 1 else 0) next.2 := by
  intro l hl c next d hready hexceeds hrun
  obtain ⟨c', hrest, hdiv, ha⟩ := run_operation hstar hready hrun
  rw [hrest] at hexceeds
  rcases hexceeds.operator hdiv with hdepth | hbehind
  · exact .inl (hE _ _ (Nat.lt_of_lt_of_le hdepth (Nat.le_add_right _ _)))
  · have hanswer := hp _ trivial c'.skipGap next.2 d c'.ready_skipGap hbehind.gap ha
    rwa [Levels.settle_behind, hl.depth_behind] at hanswer

end Grammar

end Cairn
