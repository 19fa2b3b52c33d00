import Cairn.Proofs.Levels
import Cairn.Proofs.Names

/-!
# Cairn — parsers and the levels of the scan

A parser *tracks* levels if, wherever it succeeds in a text that the scan goes
through, what it took up has moved the levels of the scan to a known place. It
*settles* them if no unary operator waits for its operand any more and the
levels are otherwise as before. Signs and opening brackets only track levels;
whatever is complete settles them, so that such parsers can follow one another.

## Main definitions

* `Parser.Tracks`, `Parser.Settles` — the two properties, combinator by
  combinator.

## Main statements

* `Word.Plain.settles`          — words without signs and brackets.
* `Grammar.closed_settles`      — what stands in brackets.
* `Grammar.operation_settles`   — a binary operator and its right operand.
-/

namespace Cairn

open Nesting (Levels Safe)

-- ---------------------------------------------------------------------------
-- Cursors
-- ---------------------------------------------------------------------------

/-- No gap is in front of the cursor. -/
def Cursor.Ready (c : Cursor) : Prop :=
  Word.gapFrom .blanks c.rest = some 0

theorem Cursor.ready_skipGap (c : Cursor) : c.skipGap.Ready :=
  Word.gapFrom_drop (Word.gapFrom_gap c.rest)

theorem Cursor.Ready.skipGap_eq {c : Cursor} (h : c.Ready) : c.skipGap = c := by
  rw [Cursor.skipGap, Word.gap, h]
  exact c.advance_zero

-- ---------------------------------------------------------------------------
-- What holds behind a parser
-- ---------------------------------------------------------------------------

/-- If the parser succeeds where `Pre` holds of the text and no gap is in front,
then `Post` holds of its value and of the text behind. -/
def Parser.Meets {α : Type} (p : Parser α) (Pre : List Char → Prop)
    (Post : α → List Char → Prop) : Prop :=
  ∀ c a d, c.Ready → Pre c.rest → p.run c = some (a, d) → Post a d.rest

theorem Parser.run_seq {α β : Type} {p : Parser (α → β)} {q : Parser α} {c d : Cursor} {b : β}
    (h : (p <*> q).run c = some (b, d)) :
    ∃ f c' a, p.run c = some (f, c') ∧ q.run c'.skipGap = some (a, d) ∧ b = f a := by
  change (Parser.seq p fun _ => q).run c = some (b, d) at h
  simp only [Parser.seq] at h
  split at h
  · cases h
  · next f c' hf =>
    obtain ⟨r, hr, heq⟩ := Option.map_eq_some_iff.mp h
    cases heq
    exact ⟨f, c', r.1, hf, hr, rfl⟩

theorem Parser.run_seqLeft {α β : Type} {p : Parser α} {q : Parser β} {c d : Cursor} {a : α}
    (h : (p <* q).run c = some (a, d)) :
    ∃ c' b, p.run c = some (a, c') ∧ q.run c'.skipGap = some (b, d) := by
  have hseq : (((fun a _ => a) <$> p : Parser (β → α)) <*> q).run c = some (a, d) := h
  obtain ⟨f, c', b, hf, hb, rfl⟩ := run_seq hseq
  obtain ⟨r, hr, heq⟩ := Option.map_eq_some_iff.mp hf
  cases heq
  exact ⟨r.2, b, hr, hb⟩

namespace Parser.Meets

variable {α β : Type} {Pre : List Char → Prop} {Post : α → List Char → Prop}

theorem mono {p : Parser α} {Post' : α → List Char → Prop} (h : p.Meets Pre Post)
    (hPost : ∀ a cs, Post a cs → Post' a cs) : p.Meets Pre Post' :=
  fun c a d hready hpre hrun => hPost a d.rest (h c a d hready hpre hrun)

theorem map {p : Parser α} {f : α → β} {Post' : β → List Char → Prop} (h : p.Meets Pre Post)
    (hf : ∀ a cs, Post a cs → Post' (f a) cs) : (f <$> p).Meets Pre Post' := by
  intro c b d hready hpre hrun
  obtain ⟨r, hr, heq⟩ := Option.map_eq_some_iff.mp hrun
  cases heq
  exact hf r.1 r.2.rest (h c r.1 r.2 hready hpre hr)

/-- What holds in front of a gap has to hold behind it. -/
theorem seq {p : Parser (β → α)} {q : Parser β} {Mid : (β → α) → List Char → Prop}
    (hp : p.Meets Pre Mid) (hgap : ∀ f cs, Mid f cs → Mid f (cs.drop (Word.gap cs)))
    (hq : ∀ f, q.Meets (Mid f) fun b => Post (f b)) : (p <*> q).Meets Pre Post := by
  intro c a d hready hpre hrun
  obtain ⟨f, c', b, hf, hb, rfl⟩ := Parser.run_seq hrun
  have hmid := hgap f c'.rest (hp c f c' hready hpre hf)
  exact hq f c'.skipGap b d c'.ready_skipGap hmid hb

theorem seqLeft {p : Parser α} {q : Parser β} {Mid : α → List Char → Prop}
    (hp : p.Meets Pre Mid) (hgap : ∀ a cs, Mid a cs → Mid a (cs.drop (Word.gap cs)))
    (hq : ∀ a, q.Meets (Mid a) fun _ => Post a) : (p <* q).Meets Pre Post := by
  have hconst : ((fun a _ => a) <$> p : Parser (β → α)).Meets Pre fun f cs =>
      ∃ a, f = (fun _ => a) ∧ Mid a cs := hp.map fun a _ hmid => ⟨a, rfl, hmid⟩
  refine hconst.seq (fun f cs ⟨a, hf, hmid⟩ => ⟨a, hf, hgap a cs hmid⟩) fun f => ?_
  rintro c b d hready ⟨a, rfl, hmid⟩ hrun
  exact hq a c b d hready hmid hrun

theorem seqRight {p : Parser β} {q : Parser α} {Mid : List Char → Prop}
    (hp : p.Meets Pre fun _ => Mid) (hgap : ∀ cs, Mid cs → Mid (cs.drop (Word.gap cs)))
    (hq : q.Meets Mid Post) : (p *> q).Meets Pre Post := by
  have hid : ((fun _ => id) <$> p : Parser (α → α)).Meets Pre fun f cs => f = id ∧ Mid cs :=
    hp.map fun _ _ hmid => ⟨rfl, hmid⟩
  refine hid.seq (fun f cs ⟨hf, hmid⟩ => ⟨hf, hgap cs hmid⟩) fun f => ?_
  rintro c b d hready ⟨rfl, hmid⟩ hrun
  exact hq c b d hready hmid hrun

theorem orElse {p q : Parser α} (hp : p.Meets Pre Post) (hq : q.Meets Pre Post) :
    (p <|> q).Meets Pre Post := by
  intro c a d hready hpre hrun
  change (Parser.orElse p fun _ => q).run c = some (a, d) at hrun
  simp only [Parser.orElse] at hrun
  split at hrun
  · next r hr => exact hp c a d hready hpre (hr.trans hrun)
  · exact hq c a d hready hpre hrun

theorem optional {p : Parser α} {Post : Option α → List Char → Prop}
    (hp : p.Meets Pre fun a => Post (some a)) (hnone : ∀ cs, Pre cs → Post none cs) :
    p.optional.Meets Pre Post := by
  intro c o d hready hpre hrun
  simp only [Parser.optional] at hrun
  split at hrun
  · next a d' ha =>
    cases hrun
    exact hp c a d hready hpre ha
  · cases hrun
    exact hnone c.rest hpre

section Repetition

variable {p : Parser α} {I : List α → List Char → Prop}
  (hgap : ∀ as cs, I as cs → I as (cs.drop (Word.gap cs)))
  (hstep : ∀ as, p.Meets (I as) fun a => I (as ++ [a]))

include hgap hstep

/-- What each round keeps up, all rounds do. -/
theorem roundsRun {as : List α} (n : Nat) {c : Cursor} (hI : I as c.rest) :
    I (as ++ (p.roundsRun n c).1) (p.roundsRun n c).2.rest := by
  induction n generalizing as c with
  | zero => rwa [Parser.roundsRun, List.append_nil]
  | succ n ih =>
    rw [Parser.roundsRun]
    split
    · rwa [List.append_nil]
    · next a d ha =>
      have hround := hstep as _ a d c.ready_skipGap (hgap as c.rest hI) ha
      have hmore := ih hround
      rwa [List.append_assoc] at hmore

theorem many : p.many.Meets (I []) I := by
  intro c as d hready hI hrun
  simp only [Parser.many] at hrun
  split at hrun
  · cases hrun
    exact hI
  · next a d' ha =>
    cases hrun
    exact roundsRun hgap hstep _ (hstep [] c a d' hready hI ha)

end Repetition

theorem located {p : Parser (Location → α)} (h : p.Meets Pre fun f cs => ∀ loc, Post (f loc) cs) :
    p.located.Meets Pre Post := by
  intro c a d hready hpre hrun
  obtain ⟨r, hr, heq⟩ := Option.map_eq_some_iff.mp hrun
  cases heq
  exact h c r.1 r.2 hready hpre hr _

end Parser.Meets

-- ---------------------------------------------------------------------------
-- Tracking levels
-- ---------------------------------------------------------------------------

/-- If the parser succeeds where the levels `l` are open and no gap is in front,
the levels behind what it took up satisfy `Q` together with its value. -/
def Parser.Tracks {α : Type} (p : Parser α) (limit : Nat) (l : Levels) (Q : α → Levels → Prop) :
    Prop :=
  ∀ c a d, c.Ready → Safe limit l c.rest → p.run c = some (a, d) → ∃ m, Q a m ∧ Safe limit m d.rest

namespace Parser.Tracks

variable {α β : Type} {limit : Nat} {l : Levels}

theorem iff_meets {p : Parser α} {Q : α → Levels → Prop} :
    p.Tracks limit l Q ↔ p.Meets (Safe limit l) fun a cs => ∃ m, Q a m ∧ Safe limit m cs :=
  Iff.rfl

theorem safe_gap {Q : Levels → Prop} {cs : List Char} (h : ∃ m, Q m ∧ Safe limit m cs) :
    ∃ m, Q m ∧ Safe limit m (cs.drop (Word.gap cs)) :=
  h.imp fun _ hm => ⟨hm.1, hm.2.gap⟩

theorem mono {p : Parser α} {P Q : α → Levels → Prop} (h : p.Tracks limit l P)
    (hPQ : ∀ a m, P a m → Q a m) : p.Tracks limit l Q :=
  iff_meets.mpr <| (iff_meets.mp h).mono fun a _ ⟨m, hm, hsafe⟩ => ⟨m, hPQ a m hm, hsafe⟩

theorem map {p : Parser α} {P : α → Levels → Prop} {f : α → β} {Q : β → Levels → Prop}
    (h : p.Tracks limit l P) (hf : ∀ a m, P a m → Q (f a) m) : (f <$> p).Tracks limit l Q :=
  iff_meets.mpr <| (iff_meets.mp h).map fun a _ ⟨m, hm, hsafe⟩ => ⟨m, hf a m hm, hsafe⟩

theorem seq {p : Parser (α → β)} {q : Parser α} {P : (α → β) → Levels → Prop}
    {Q : β → Levels → Prop} (hp : p.Tracks limit l P)
    (hq : ∀ f m, P f m → q.Tracks limit m fun a m' => Q (f a) m') :
    (p <*> q).Tracks limit l Q := by
  refine iff_meets.mpr <| (iff_meets.mp hp).seq (fun _ _ => safe_gap) fun f => ?_
  rintro c a d hready ⟨m, hm, hsafe⟩ hrun
  exact hq f m hm c a d hready hsafe hrun

theorem seqLeft {p : Parser α} {q : Parser β} {P Q : α → Levels → Prop}
    (hp : p.Tracks limit l P) (hq : ∀ a m, P a m → q.Tracks limit m fun _ m' => Q a m') :
    (p <* q).Tracks limit l Q := by
  refine iff_meets.mpr <| (iff_meets.mp hp).seqLeft (fun _ _ => safe_gap) fun a => ?_
  rintro c b d hready ⟨m, hm, hsafe⟩ hrun
  exact hq a m hm c b d hready hsafe hrun

theorem seqRight {p : Parser α} {q : Parser β} {P : Levels → Prop} {Q : β → Levels → Prop}
    (hp : p.Tracks limit l fun _ => P) (hq : ∀ m, P m → q.Tracks limit m Q) :
    (p *> q).Tracks limit l Q := by
  refine iff_meets.mpr <| (iff_meets.mp hp).seqRight (fun _ => safe_gap) ?_
  rintro c b d hready ⟨m, hm, hsafe⟩ hrun
  exact hq m hm c b d hready hsafe hrun

theorem orElse {p q : Parser α} {Q : α → Levels → Prop} (hp : p.Tracks limit l Q)
    (hq : q.Tracks limit l Q) : (p <|> q).Tracks limit l Q :=
  iff_meets.mpr <| (iff_meets.mp hp).orElse (iff_meets.mp hq)

theorem optional {p : Parser α} {Q : Option α → Levels → Prop}
    (hp : p.Tracks limit l fun a m => Q (some a) m) (hnone : Q none l) :
    p.optional.Tracks limit l Q :=
  iff_meets.mpr <| Meets.optional (iff_meets.mp hp) fun _ hsafe => ⟨l, hnone, hsafe⟩

/-- What each round keeps up, all rounds do. -/
theorem many {p : Parser α} {I : List α → Levels → Prop}
    (hstep : ∀ as m, I as m → p.Tracks limit m fun a m' => I (as ++ [a]) m') (hI : I [] l) :
    p.many.Tracks limit l I := by
  have hround : ∀ as, p.Meets (fun cs => ∃ m, I as m ∧ Safe limit m cs) fun a cs =>
      ∃ m, I (as ++ [a]) m ∧ Safe limit m cs := by
    rintro as c a d hready ⟨m, hm, hsafe⟩ hrun
    exact hstep as m hm c a d hready hsafe hrun
  intro c as d hready hsafe hrun
  exact Meets.many (fun _ _ => safe_gap) hround c as d hready ⟨l, hI, hsafe⟩ hrun

theorem rule {p : Parser α} {Q : α → Levels → Prop} (h : p.Tracks limit l Q) (r : Rule) :
    (p.rule r).Tracks limit l Q := h

theorem located {p : Parser (Location → α)} {Q : α → Levels → Prop}
    (h : p.Tracks limit l fun f m => ∀ loc, Q (f loc) m) : p.located.Tracks limit l Q :=
  iff_meets.mpr <| Meets.located <|
    (iff_meets.mp h).mono fun _ _ ⟨m, hm, hsafe⟩ loc => ⟨m, hm loc, hsafe⟩

end Parser.Tracks

-- ---------------------------------------------------------------------------
-- Settling levels
-- ---------------------------------------------------------------------------

/-- Wherever levels `l` with `S l` are open, the parser settles them, and its value
satisfies `P` at the depth of `l`. -/
def Parser.Settles {α : Type} (p : Parser α) (limit : Nat) (S : Levels → Prop)
    (P : Nat → α → Prop) : Prop :=
  ∀ l, S l → p.Tracks limit l fun a m => m = l.settle ∧ P l.depth a

/-- No operator waits for its operand. -/
def Nesting.Levels.IsSettled (l : Levels) : Prop :=
  l.pending = 0

theorem Nesting.Levels.IsSettled.settle_eq {l : Levels} (h : l.IsSettled) : l.settle = l := by
  have hpending : l.pending = 0 := h
  simp only [Levels.settle, hpending, Nat.sub_zero]
  rw [← hpending]

namespace Parser.Settles

variable {α β : Type} {limit : Nat} {S : Levels → Prop} {P : Nat → α → Prop} {Q : Nat → β → Prop}

theorem map {p : Parser α} {f : α → β} (h : p.Settles limit S P)
    (hf : ∀ d a, d ≤ limit → P d a → Q d (f a)) : (f <$> p).Settles limit S Q := by
  intro l hl c b d hready hsafe hrun
  obtain ⟨r, hr, heq⟩ := Option.map_eq_some_iff.mp hrun
  cases heq
  obtain ⟨m, ⟨hm, ha⟩, hd⟩ := h l hl c r.1 r.2 hready hsafe hr
  exact ⟨m, ⟨hm, hf l.depth r.1 hsafe.depth_le ha⟩, hd⟩

theorem orElse {p q : Parser α} (hp : p.Settles limit S P) (hq : q.Settles limit S P) :
    (p <|> q).Settles limit S P :=
  fun l hl => (hp l hl).orElse (hq l hl)

theorem rule {p : Parser α} (h : p.Settles limit S P) (r : Rule) : (p.rule r).Settles limit S P :=
  h

theorem located {p : Parser (Location → α)} (h : p.Settles limit S fun d f => ∀ loc, P d (f loc)) :
    p.located.Settles limit S P := by
  intro l hl
  refine Tracks.located ((h l hl).mono ?_)
  rintro f m ⟨hm, hf⟩ loc
  exact ⟨hm, hf loc⟩

-- Levels that are settled stay as they are, so that parsers may follow one
-- another.

theorem seq {p : Parser (α → β)} {q : Parser α}
    (hp : p.Settles limit Levels.IsSettled fun d f => ∀ a, P d a → Q d (f a))
    (hq : q.Settles limit Levels.IsSettled P) : (p <*> q).Settles limit Levels.IsSettled Q := by
  intro l hl
  refine (hp l hl).seq ?_
  rintro f _ ⟨rfl, hf⟩
  rw [hl.settle_eq]
  refine (hq l hl).mono ?_
  rintro a m ⟨hm, ha⟩
  exact ⟨hm.trans hl.settle_eq, hf a ha⟩

theorem seqLeft {p : Parser α} {q : Parser β} (hp : p.Settles limit Levels.IsSettled P)
    (hq : q.Settles limit Levels.IsSettled Q) : (p <* q).Settles limit Levels.IsSettled P :=
  (hp.map fun _ _ _ ha _ _ => ha).seq hq

theorem seqRight {p : Parser α} {q : Parser β} (hp : p.Settles limit Levels.IsSettled P)
    (hq : q.Settles limit Levels.IsSettled Q) : (p *> q).Settles limit Levels.IsSettled Q :=
  seq (P := Q) (hp.map fun _ _ _ _ _ hb => hb) hq

theorem optional {p : Parser α} (h : p.Settles limit Levels.IsSettled P) :
    p.optional.Settles limit Levels.IsSettled fun d o => ∀ a ∈ o, P d a := by
  intro l hl
  refine Tracks.optional ((h l hl).mono ?_) ⟨hl.settle_eq.symm, by rintro _ ⟨⟩⟩
  rintro a m ⟨hm, ha⟩
  refine ⟨hm, ?_⟩
  rintro _ ⟨⟩
  exact ha

theorem many {p : Parser α} (h : p.Settles limit Levels.IsSettled P) :
    p.many.Settles limit Levels.IsSettled fun d as => ∀ a ∈ as, P d a := by
  intro l hl
  refine Tracks.many ?_ ⟨hl.settle_eq.symm, List.forall_mem_nil _⟩
  rintro as _ ⟨rfl, has⟩
  rw [hl.settle_eq]
  refine (h l hl).mono ?_
  rintro a m ⟨hm, ha⟩
  have hall := List.forall_mem_append.mpr ⟨has, List.forall_mem_singleton.mpr ha⟩
  exact ⟨hm.trans hl.settle_eq, hall⟩

end Parser.Settles

-- ---------------------------------------------------------------------------
-- Words
-- ---------------------------------------------------------------------------

variable {limit : Nat} {l : Levels} {S : Levels → Prop}

theorem Parser.word_tracks {measure : List Char → Option Nat} {m : Levels}
    (h : ∀ cs n, measure cs = some n → Safe limit l cs → Safe limit m (cs.drop n)) :
    (Parser.word measure).Tracks limit l fun _ m' => m' = m := by
  intro c word d _ hsafe hrun
  obtain ⟨n, hn, heq⟩ := Option.map_eq_some_iff.mp hrun
  cases heq
  exact ⟨m, rfl, h c.rest n hn hsafe⟩

theorem Parser.word_settles {measure : List Char → Option Nat}
    (h : ∀ l cs n, measure cs = some n → Safe limit l cs → Safe limit l.settle (cs.drop n)) :
    (Parser.word measure).Settles limit S fun _ _ => True := by
  intro l _
  refine (Parser.word_tracks fun cs n => h l cs n).mono ?_
  rintro word m rfl
  exact ⟨rfl, trivial⟩

/-- The measure finds words without signs and brackets. -/
def Word.Plain (measure : List Char → Option Nat) : Prop :=
  ∀ cs n, measure cs = some n → cs.take n ≠ [] ∧ (cs.take n).all Nesting.isPlain

theorem Word.Plain.settles {measure : List Char → Option Nat} (h : Word.Plain measure) :
    (Parser.word measure).Settles limit S fun _ _ => True := by
  refine Parser.word_settles fun l cs n hn hsafe => ?_
  obtain ⟨hne, hplain⟩ := h cs n hn
  rw [← List.take_append_drop n cs] at hsafe
  exact hsafe.word hplain hne

namespace Word

variable {cs : List Char} {n : Nat}

theorem take_takeWhile (p : Char → Bool) (cs : List Char) :
    cs.take (cs.takeWhile p).length = cs.takeWhile p :=
  (List.prefix_iff_eq_take.mp (List.takeWhile_prefix p)).symm

theorem all_isPlain_takeWhile {p : Char → Bool} (hp : ∀ c, p c → Nesting.isPlain c)
    (cs : List Char) : (cs.takeWhile p).all Nesting.isPlain :=
  List.all_eq_true.mpr fun c hc => hp c (List.all_eq_true.mp List.all_takeWhile c hc)

theorem plain_ident : Plain ident := by
  intro cs n h
  obtain ⟨hne, hword⟩ := isName_of_ident h
  exact ⟨hne, List.all_eq_true.mpr fun c hc => Nesting.isPlain_of_isWordChar (hword c hc)⟩

theorem plain_keyword (k : Keyword) : Plain (keyword k) := by
  intro cs n h
  simp only [keyword, Option.ite_none_right_eq_some, Option.some.injEq] at h
  obtain ⟨hword, rfl⟩ := h
  have hplain := all_isPlain_takeWhile (fun _ => Nesting.isPlain_of_isWordChar) cs
  rw [take_takeWhile]
  refine ⟨?_, hplain⟩
  obtain ⟨c, rest, htext, -⟩ := k.text_eq
  rw [hword, htext]
  exact List.cons_ne_nil _ _

theorem plain_symbol {text : String} (hne : text.toList ≠ [])
    (hplain : text.toList.all Nesting.isPlain) : Plain (symbol text) := by
  intro cs n h
  simp only [symbol, Option.ite_none_right_eq_some, Option.some.injEq] at h
  obtain ⟨hfront, rfl⟩ := h
  rw [← List.prefix_iff_eq_take.mp (List.isPrefixOf_iff_prefix.mp hfront)]
  exact ⟨hne, hplain⟩

theorem plain_assignOp : Plain assignOp := by
  intro cs n h
  unfold assignOp at h
  split at h
  · next rest =>
    split at h
    · cases h
    · cases h
      exact ⟨List.cons_ne_nil _ _, rfl⟩
  · cases h

theorem plain_int : Plain int := by
  intro cs n h
  simp only [int, Option.ite_none_left_eq_some, Option.some.injEq] at h
  obtain ⟨hne, rfl⟩ := h
  rw [take_takeWhile]
  refine ⟨fun hnil => hne (by rw [hnil]; rfl), all_isPlain_takeWhile (fun c hc => ?_) cs⟩
  exact Nesting.isPlain_of_isWordChar (isWordChar_of_isDigit hc)

theorem plain_float : Plain float := by
  intro cs n h
  unfold float at h
  split at h
  · cases h
  · next whole hwhole =>
    split at h
    · next tail htail =>
      obtain ⟨fraction, hfraction, rfl⟩ := Option.map_eq_some_iff.mp h
      obtain ⟨hne, hwhole⟩ := plain_int cs whole hwhole
      have htake : cs.take (whole + 1 + fraction) = cs.take whole ++ '.' :: tail.take fraction := by
        rw [Nat.add_assoc, List.take_add, htail, Nat.add_comm, List.take_succ_cons]
      rw [htake]
      refine ⟨List.append_ne_nil_of_left_ne_nil hne _, ?_⟩
      rw [List.all_append, hwhole, List.all_cons, (plain_int tail fraction hfraction).2]
      rfl
    · cases h

/-- A text in quotes is a quote and the rest of it. -/
theorem string_eq_some (h : string cs = some n) :
    ∃ rest m, cs = '"' :: rest ∧ stringTail rest = some m ∧ n = m + 1 := by
  unfold string at h
  split at h
  · next rest =>
    obtain ⟨m, hm, rfl⟩ := Option.map_eq_some_iff.mp h
    exact ⟨rest, m, rfl, hm, rfl⟩
  · cases h

/-- To the scan, too, the sign of a unary operator is a sign. -/
theorem unaryOp_eq_some {op : UnaryOp} (h : unaryOp op cs = some n) :
    ∃ c rest, cs = c :: rest ∧ n = 1 ∧ Nesting.Single c rest ∧
      ∀ l : Levels, l.step c = l.addPending := by
  unfold unaryOp at h
  split at h
  · cases h
    exact ⟨'-', _, rfl, rfl, .of_ne (by decide), fun _ => rfl⟩
  · split at h
    · cases h
    · next hnext =>
      cases h
      have hsingle : Nesting.Single '!' _ :=
        ⟨fun heq => absurd heq (by decide), fun _ => hnext, by decide⟩
      exact ⟨'!', _, rfl, rfl, hsingle, fun _ => rfl⟩
  · cases h

end Word

namespace Grammar

theorem keyword_settles (k : Keyword) : (keyword k).Settles limit S fun _ _ => True :=
  (Word.plain_keyword k).settles.rule _

theorem symbol_settles {text : String} (hne : text.toList ≠ [])
    (hplain : text.toList.all Nesting.isPlain) :
    (symbol text).Settles limit S fun _ _ => True :=
  (Word.plain_symbol hne hplain).settles

theorem ident_settles : ident.Settles limit S fun _ _ => True := by
  have hname : (Parser.word Word.ident).Settles limit S fun _ _ => True := Word.plain_ident.settles
  exact ((hname.map fun _ _ _ _ _ => trivial).located).rule _

theorem string_settles :
    (Parser.word Word.string).Settles limit S fun _ _ => True := by
  refine Parser.word_settles fun l cs n hn hsafe => ?_
  obtain ⟨rest, m, rfl, hm, rfl⟩ := Word.string_eq_some hn
  show Safe limit l.settle (rest.drop m)
  exact hsafe.string hm

-- ---------------------------------------------------------------------------
-- Signs and brackets
-- ---------------------------------------------------------------------------

theorem run_symbol {text : String} {c d : Cursor} {word : List Char}
    (h : (symbol text).run c = some (word, d)) : c.rest = text.toList ++ d.rest := by
  obtain ⟨n, hn, heq⟩ := Option.map_eq_some_iff.mp h
  cases heq
  simp only [Word.symbol, Option.ite_none_right_eq_some, Option.some.injEq] at hn
  obtain ⟨hfront, rfl⟩ := hn
  obtain ⟨tail, htail⟩ := List.isPrefixOf_iff_prefix.mp hfront
  rw [Cursor.rest_advance, ← htail, List.drop_left]

theorem unaryOp_tracks (op : UnaryOp) :
    (unaryOp op).Tracks limit l fun _ m => m = l.addPending := by
  have hsign : (Parser.word (Word.unaryOp op)).Tracks limit l fun _ m => m = l.addPending := by
    refine Parser.word_tracks fun cs n hn hsafe => ?_
    obtain ⟨c, rest, rfl, rfl, hsingle, hstep⟩ := Word.unaryOp_eq_some hn
    rw [← hstep l]
    exact hsafe.char hsingle
  exact ((hsign.map fun _ _ hm _ => hm).located).rule _

/-- A symbol of one character that starts no comment, no string and no `!=`. -/
theorem symbol_tracks {text : String} {c : Char} (htext : text.toList = [c])
    (hc : c ≠ '/' ∧ c ≠ '!' ∧ c ≠ '"') : (symbol text).Tracks limit l fun _ m => m = l.step c := by
  intro cur word d _ hsafe hrun
  rw [run_symbol hrun, htext] at hsafe
  exact ⟨l.step c, rfl, hsafe.step hc⟩

variable {α : Type} {P : Nat → α → Prop}

/-- Behind an opening bracket there is one more level. -/
theorem opened_tracks {text : String} (hopen : text = "(" ∨ text = "\x7b") {p : Parser α}
    (hp : p.Settles limit Levels.IsSettled P) (l : Levels) :
    (symbol text *> p).Tracks limit l fun a m => m = l.openBracket ∧ P (l.depth + 1) a := by
  have hbracket : (symbol text).Tracks limit l fun _ m => m = l.openBracket := by
    rcases hopen with rfl | rfl
    · exact symbol_tracks (c := '(') rfl (by decide)
    · exact symbol_tracks (c := '\x7b') rfl (by decide)
  refine hbracket.seqRight ?_
  rintro _ rfl
  exact hp l.openBracket rfl

/-- The level is gone behind the closing bracket. -/
theorem closed_settles {text : String} (hclose : text = ")" ∨ text = "\x7d") {p : Parser α}
    (hp : ∀ l, p.Tracks limit l fun a m => m = l.openBracket ∧ P l.depth a) :
    (p <* symbol text).Settles limit S P := by
  have hbracket : ∀ m : Levels, (symbol text).Tracks limit m fun _ m' => m' = m.closeBracket := by
    intro m
    rcases hclose with rfl | rfl
    · exact symbol_tracks (c := ')') rfl (by decide)
    · exact symbol_tracks (c := '\x7d') rfl (by decide)
  intro l _
  refine (hp l).seqLeft ?_
  rintro a _ ⟨rfl, ha⟩
  refine (hbracket _).mono ?_
  rintro _ _ rfl
  exact ⟨l.closeBracket_openBracket, ha⟩

-- ---------------------------------------------------------------------------
-- Binary operators
-- ---------------------------------------------------------------------------

theorem run_binaryOp_of_any {op : BinaryOp} {c d : Cursor}
    (h : anyBinaryOp.run c = some (op, d)) : (binaryOp op).run c = some (op, d) := by
  unfold anyBinaryOp at h
  generalize BinaryOp.all = ops at h
  induction ops with
  | nil => cases h
  | cons op' ops ih =>
    change (Parser.orElse (binaryOp op') fun _ => _).run c = _ at h
    simp only [Parser.orElse] at h
    split at h
    · next r hr =>
      obtain ⟨r', hr', heq⟩ := Option.map_eq_some_iff.mp (hr.trans h)
      cases heq
      exact hr.trans h
    · exact ih h

theorem run_anyBinaryOp {op : BinaryOp} {c d : Cursor}
    (h : anyBinaryOp.run c = some (op, d)) : c.rest = op.text.toList ++ d.rest := by
  obtain ⟨r, hr, heq⟩ := Option.map_eq_some_iff.mp (run_binaryOp_of_any h)
  cases heq
  exact run_symbol hr

/-- An operator and its right operand. The operand is read behind a slash only if
no star is there, so that the scan takes it for the same operator. -/
theorem run_operation {p : Parser α} (hstar : ∀ c tail, c.rest = '*' :: tail → p.run c = none)
    {c d : Cursor} {next : BinaryOp × α} (hready : c.Ready)
    (h : (Prod.mk <$> anyBinaryOp <*> p).run c = some (next, d)) :
    ∃ c' : Cursor, c.rest = next.1.text.toList ++ c'.rest ∧
      (next.1 = .div → c'.rest.head? ≠ some '/' ∧ c'.rest.head? ≠ some '*') ∧
      p.run c'.skipGap = some (next.2, d) := by
  obtain ⟨f, c', a, hf, ha, rfl⟩ := Parser.run_seq h
  obtain ⟨⟨op, c''⟩, hop, heq⟩ := Option.map_eq_some_iff.mp hf
  cases heq
  have hrest := run_anyBinaryOp hop
  have hready : Word.gapFrom .blanks c.rest = some 0 := hready
  refine ⟨c'', hrest, ?_, ha⟩
  rintro rfl
  rw [hrest] at hready
  refine ⟨fun hslash => ?_, fun hhead => ?_⟩
  -- Two slashes would be a gap, and behind a slash and a star no operand is read.
  · obtain ⟨tail, htail⟩ := List.head?_eq_some_iff.mp hslash
    rw [htail] at hready
    obtain ⟨_, -, hzero⟩ := Option.map_eq_some_iff.mp hready
    cases hzero
  · obtain ⟨tail, htail⟩ := List.head?_eq_some_iff.mp hhead
    have hnoGap : c''.skipGap = c'' := Cursor.Ready.skipGap_eq (by rw [Cursor.Ready, htail]; rfl)
    rw [hnoGap, hstar c'' tail htail] at ha
    cases ha

theorem operation_settles {p : Parser α}
    (hp : ∀ l, p.Tracks limit l fun a m => m = l.settle ∧ P l.depth a)
    (hstar : ∀ c tail, c.rest = '*' :: tail → p.run c = none)
    (hmono : ∀ {d d' a}, d ≤ d' → P d' a → P d a) :
    (Prod.mk <$> anyBinaryOp <*> p).Settles limit Levels.IsSettled fun d next => P d next.2 := by
  intro l hl c next d hready hsafe hrun
  obtain ⟨c', hrest, hdiv, ha⟩ := run_operation hstar hready hrun
  rw [hrest] at hsafe
  obtain ⟨m, hm, hdepth, hsafe'⟩ := hsafe.operator hdiv
  obtain ⟨m', ⟨rfl, ha'⟩, hd⟩ := hp m _ next.2 d c'.ready_skipGap hsafe'.gap ha
  rw [hl.settle_eq] at hdepth
  exact ⟨m.settle, ⟨hm, hmono hdepth ha'⟩, hd⟩

end Grammar

end Cairn
