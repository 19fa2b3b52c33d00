import Cairn.Proofs.Resolving
import Cairn.Proofs.Words

/-!
# Cairn — what parsers read

A parser *reads* some terminals if, in front of any text of them and of what may
follow them, it takes up exactly those terminals. It *refuses* some terminals
if it fails in front of any text of them. Both are settled combinator by
combinator. What may follow has to be part of the statement: a repetition or an
optional part ends where the next part refuses what follows.

## Main definitions

* `Parser.Reads`, `Parser.Refuses` — the two properties.
* `Parser.Rounds` — what a repetition of a parser needs.
-/

namespace Cairn

namespace Parser

/-- In front of the terminals `ts`, if `next` allows what follows them, the parser
takes up `ts` and yields a value that satisfies `P`. -/
def Reads {α : Type} (p : Parser α) (ts : List Terminal) (P : α → Prop)
    (next : List Terminal → Prop) : Prop :=
  ∀ c after, next after → Written (ts ++ after) c.rest →
    ∃ a d, p.run c = some (a, d) ∧ P a ∧ Written after d.skipGap.rest

/-- The parser fails in front of the terminals `ts`. -/
def Refuses {α : Type} (p : Parser α) (ts : List Terminal) : Prop :=
  ∀ c, Written ts c.rest → p.run c = none

end Parser

/-- Anything may follow. -/
def anything : List Terminal → Prop :=
  fun _ => True

theorem Cursor.skipGap_of_written {c : Cursor} {ts : List Terminal} (h : Written ts c.rest) :
    c.skipGap = c := by
  rw [skipGap, Word.gap, Word.gap_written h]
  exact c.advance_zero

-- ---------------------------------------------------------------------------
-- Reading
-- ---------------------------------------------------------------------------

namespace Parser.Reads

variable {α β : Type} {P P' : α → Prop} {Q : β → Prop} {ts us : List Terminal}
  {next next' : List Terminal → Prop}

theorem mono {p : Parser α} (h : p.Reads ts P next) (hP : ∀ a, P a → P' a)
    (hnext : ∀ after, next' after → next after) : p.Reads ts P' next' := by
  intro c after hafter hc
  obtain ⟨a, d, hrun, ha, hd⟩ := h c after (hnext after hafter) hc
  exact ⟨a, d, hrun, hP a ha, hd⟩

theorem of_anything {p : Parser α} (h : p.Reads ts P anything) : p.Reads ts P next :=
  h.mono (fun _ ha => ha) fun _ _ => trivial

theorem pure {a : α} (ha : P a) : (Parser.pure a).Reads [] P next := by
  intro c after _ hc
  refine ⟨a, c, rfl, ha, ?_⟩
  rw [Cursor.skipGap_of_written hc]
  exact hc

theorem map {p : Parser α} {f : α → β} (h : p.Reads ts P next) (hf : ∀ a, P a → Q (f a)) :
    (f <$> p).Reads ts Q next := by
  intro c after hafter hc
  obtain ⟨a, d, hrun, ha, hd⟩ := h c after hafter hc
  refine ⟨f a, d, ?_, hf a ha, hd⟩
  change (p.run c).map _ = _
  rw [hrun]
  rfl

theorem seq {p : Parser (α → β)} {q : Parser α}
    (hp : p.Reads ts (fun f => ∀ a, P a → Q (f a)) next) (hq : q.Reads us P next')
    (hnext : ∀ after, next' after → next (us ++ after)) : (p <*> q).Reads (ts ++ us) Q next' := by
  intro c after hafter hc
  rw [List.append_assoc] at hc
  obtain ⟨f, d, hrun, hf, hd⟩ := hp c (us ++ after) (hnext after hafter) hc
  obtain ⟨a, d', hrun', ha, hd'⟩ := hq d.skipGap after hafter hd
  refine ⟨f a, d', ?_, hf a ha, hd'⟩
  change (Parser.seq p fun _ => q).run c = _
  simp only [Parser.seq, hrun, hrun']
  rfl

theorem seqLeft {p : Parser α} {q : Parser β} (hp : p.Reads ts P next) (hq : q.Reads us Q next')
    (hnext : ∀ after, next' after → next (us ++ after)) : (p <* q).Reads (ts ++ us) P next' :=
  (hp.map fun _ ha _ _ => ha).seq hq hnext

theorem seqRight {p : Parser α} {q : Parser β} (hp : p.Reads ts P next) (hq : q.Reads us Q next')
    (hnext : ∀ after, next' after → next (us ++ after)) : (p *> q).Reads (ts ++ us) Q next' :=
  seq (P := Q) (hp.map fun _ _ _ hb => hb) hq hnext

theorem orElse {p : Parser α} (h : p.Reads ts P next) (q : Parser α) :
    (p <|> q).Reads ts P next := by
  intro c after hafter hc
  obtain ⟨a, d, hrun, ha, hd⟩ := h c after hafter hc
  refine ⟨a, d, ?_, ha, hd⟩
  change (Parser.orElse p fun _ => q).run c = _
  simp only [Parser.orElse, hrun]

theorem orElse_right {p q : Parser α} (hp : ∀ after, next after → p.Refuses (ts ++ after))
    (hq : q.Reads ts P next) : (p <|> q).Reads ts P next := by
  intro c after hafter hc
  obtain ⟨a, d, hrun, ha, hd⟩ := hq c after hafter hc
  refine ⟨a, d, ?_, ha, hd⟩
  change (Parser.orElse p fun _ => q).run c = _
  simp only [Parser.orElse, hp after hafter c hc]
  exact hrun

theorem optional {p : Parser α} (h : p.Reads ts P next) :
    p.optional.Reads ts (fun o => ∃ a, o = some a ∧ P a) next := by
  intro c after hafter hc
  obtain ⟨a, d, hrun, ha, hd⟩ := h c after hafter hc
  refine ⟨some a, d, ?_, ⟨a, rfl, ha⟩, hd⟩
  simp only [Parser.optional, hrun]

theorem optional_none {p : Parser α} (h : ∀ after, next after → p.Refuses after) :
    p.optional.Reads [] (· = none) next := by
  intro c after hafter hc
  refine ⟨none, c, ?_, rfl, ?_⟩
  · simp only [Parser.optional, h after hafter c hc]
  · rw [Cursor.skipGap_of_written hc]
    exact hc

theorem rule {p : Parser α} (h : p.Reads ts P next) (r : Rule) : (p.rule r).Reads ts P next := h

theorem located {p : Parser (Location → α)} (h : p.Reads ts (fun f => ∀ loc, P (f loc)) next) :
    p.located.Reads ts P next := by
  intro c after hafter hc
  obtain ⟨f, d, hrun, hf, hd⟩ := h c after hafter hc
  refine ⟨f (c.upTo d), d, ?_, hf _, hd⟩
  simp only [Parser.located, hrun, Option.map_some]

end Parser.Reads

theorem Parser.word_reads {measure : List Char → Option Nat} {t : Terminal}
    (h : ∀ word tail, t.Spells word → WordEnd tail → measure (word ++ tail) = some word.length) :
    (Parser.word measure).Reads [t] t.Spells anything := by
  intro c after _ hc
  obtain ⟨word, tail, hword, hrest, htail, hafter⟩ := hc.uncons
  have hmeasure := h word tail hword htail
  refine ⟨word, c.advance word.length, ?_, hword, ?_⟩
  · simp only [Parser.word, hrest, hmeasure, Option.map_some, List.take_left]
  · rw [Cursor.skipGap, Cursor.rest_advance, Cursor.rest_advance, hrest, List.drop_left]
    exact hafter

theorem Parser.endOfText_reads : Parser.endOfText.Reads [] (fun _ => True) (· = []) := by
  rintro c after rfl hc
  have hrest : c.rest = [] := by
    generalize c.rest = cs at hc
    cases hc
    rfl
  refine ⟨(), c, ?_, trivial, ?_⟩
  · simp only [Parser.endOfText, hrest, List.isEmpty_nil, if_true]
  · rw [Cursor.skipGap_of_written hc]
    exact hc

-- ---------------------------------------------------------------------------
-- Refusing
-- ---------------------------------------------------------------------------

namespace Parser.Refuses

variable {α β : Type} {ts : List Terminal}

theorem map {p : Parser α} (h : p.Refuses ts) (f : α → β) : (f <$> p).Refuses ts := by
  intro c hc
  change (p.run c).map _ = none
  rw [h c hc]
  rfl

theorem seq {p : Parser (α → β)} (h : p.Refuses ts) (q : Parser α) : (p <*> q).Refuses ts := by
  intro c hc
  change (Parser.seq p fun _ => q).run c = none
  simp only [Parser.seq, h c hc]

theorem seqLeft {p : Parser α} (h : p.Refuses ts) (q : Parser β) : (p <* q).Refuses ts :=
  (h.map _).seq q

theorem seqRight {p : Parser α} (h : p.Refuses ts) (q : Parser β) : (p *> q).Refuses ts :=
  (h.map _).seq q

/-- The first part reads, and the second one refuses. -/
theorem seq_of_reads {p : Parser (α → β)} {us : List Terminal} {P : (α → β) → Prop}
    {next : List Terminal → Prop} (hp : p.Reads us P next) (hnext : next ts) {q : Parser α}
    (hq : q.Refuses ts) : (p <*> q).Refuses (us ++ ts) := by
  intro c hc
  obtain ⟨f, d, hrun, -, hd⟩ := hp c ts hnext hc
  change (Parser.seq p fun _ => q).run c = none
  simp only [Parser.seq, hrun, hq _ hd]
  rfl

theorem seqLeft_of_reads {p : Parser α} {us : List Terminal} {P : α → Prop}
    {next : List Terminal → Prop} (hp : p.Reads us P next) (hnext : next ts) {q : Parser β}
    (hq : q.Refuses ts) : (p <* q).Refuses (us ++ ts) :=
  seq_of_reads (hp.map (Q := fun _ => True) fun _ _ => trivial) hnext hq

theorem orElse {p q : Parser α} (hp : p.Refuses ts) (hq : q.Refuses ts) :
    (p <|> q).Refuses ts := by
  intro c hc
  change (Parser.orElse p fun _ => q).run c = none
  simp only [Parser.orElse, hp c hc]
  exact hq c hc

theorem rule {p : Parser α} (h : p.Refuses ts) (r : Rule) : (p.rule r).Refuses ts := h

theorem located {p : Parser (Location → α)} (h : p.Refuses ts) : p.located.Refuses ts := by
  intro c hc
  simp only [Parser.located, h c hc, Option.map_none]

end Parser.Refuses

theorem Parser.word_refuses {measure : List Char → Option Nat} {ts : List Terminal}
    (hnil : measure [] = none)
    (hcons : ∀ t, ts.head? = some t → ∀ word tail, t.Spells word → WordEnd tail →
      measure (word ++ tail) = none) : (Parser.word measure).Refuses ts := by
  intro c hc
  simp only [Parser.word, Option.map_eq_none_iff]
  cases ts with
  | nil =>
    cases hrest : c.rest with
    | nil => exact hnil
    | cons d rest =>
      rw [hrest] at hc
      cases hc
  | cons t ts =>
    obtain ⟨word, tail, hword, hrest, htail, -⟩ := hc.uncons
    rw [hrest]
    exact hcons t rfl word tail hword htail

-- ---------------------------------------------------------------------------
-- Repetition
-- ---------------------------------------------------------------------------

/-- The parser reads the terminals of each item, one item may follow another, and
the parser refuses whatever `stop` allows behind the last one. -/
structure Parser.Rounds {α β : Type} (p : Parser α) (items : List β)
    (terms : β → List Terminal) (R : β → α → Prop) (next stop : List Terminal → Prop) : Prop where
  reads : ∀ b ∈ items, p.Reads (terms b) (R b) next
  nonempty : ∀ b ∈ items, terms b ≠ []
  goesOn : ∀ b ∈ items, ∀ after, next (terms b ++ after)
  ends : ∀ after, stop after → next after
  stops : ∀ after, stop after → p.Refuses after

namespace Parser.Rounds

variable {α β : Type} {p : Parser α} {b : β} {items : List β} {terms : β → List Terminal}
  {R : β → α → Prop} {next stop : List Terminal → Prop}

theorem tail (h : p.Rounds (b :: items) terms R next stop) : p.Rounds items terms R next stop where
  reads := fun b hb => h.reads b (List.mem_cons_of_mem _ hb)
  nonempty := fun b hb => h.nonempty b (List.mem_cons_of_mem _ hb)
  goesOn := fun b hb => h.goesOn b (List.mem_cons_of_mem _ hb)
  ends := h.ends
  stops := h.stops

theorem length_le (h : p.Rounds items terms R next stop) :
    items.length ≤ (items.flatMap terms).length := by
  induction items with
  | nil => exact Nat.le_refl 0
  | cons b items ih =>
    have hpos := List.length_pos_iff.mpr (h.nonempty b List.mem_cons_self)
    have hrest := ih h.tail
    rw [List.flatMap_cons, List.length_append, List.length_cons]
    omega

/-- What follows an item is another item, or the end. -/
theorem next_rest (h : p.Rounds items terms R next stop) {after : List Terminal}
    (hafter : stop after) : next (items.flatMap terms ++ after) := by
  cases items with
  | nil => exact h.ends after hafter
  | cons b items =>
    rw [List.flatMap_cons, List.append_assoc]
    exact h.goesOn b List.mem_cons_self _

theorem roundsRun (h : p.Rounds items terms R next stop) {n : Nat} (hn : items.length ≤ n)
    {c : Cursor} {after : List Terminal} (hafter : stop after)
    (hc : Written (items.flatMap terms ++ after) c.skipGap.rest) :
    ∃ as d, p.roundsRun n c = (as, d) ∧ List.Forall₂ R items as ∧ Written after d.skipGap.rest := by
  induction items generalizing n c with
  | nil =>
    refine ⟨[], c, ?_, .nil, hc⟩
    cases n with
    | zero => rfl
    | succ n => simp only [Parser.roundsRun, h.stops after hafter _ hc]
  | cons b items ih =>
    cases n with
    | zero => cases hn
    | succ n =>
      rw [List.flatMap_cons, List.append_assoc] at hc
      obtain ⟨a, d, hrun, ha, hd⟩ :=
        h.reads b List.mem_cons_self _ _ (h.tail.next_rest hafter) hc
      obtain ⟨as, d', hrounds, has, hd'⟩ := ih h.tail (Nat.le_of_succ_le_succ hn) hd
      refine ⟨a :: as, d', ?_, .cons ha has, hd'⟩
      simp only [Parser.roundsRun, hrun, hrounds]

/-- A repetition reads items one after the other. -/
theorem many (h : p.Rounds items terms R next stop) :
    p.many.Reads (items.flatMap terms) (List.Forall₂ R items) stop := by
  intro c after hafter hc
  cases items with
  | nil =>
    refine ⟨[], c, ?_, .nil, ?_⟩
    · simp only [Parser.many, h.stops after hafter c hc]
    · rw [Cursor.skipGap_of_written hc]
      exact hc
  | cons b items =>
    -- Each round takes up a terminal, so that their number is within the bound.
    have hbound : items.length ≤ c.rest.length := by
      have hlength := hc.length_le
      have hitems := h.tail.length_le
      rw [List.flatMap_cons, List.length_append, List.length_append] at hlength
      omega
    rw [List.flatMap_cons, List.append_assoc] at hc
    obtain ⟨a, d, hrun, ha, hd⟩ := h.reads b List.mem_cons_self _ _ (h.tail.next_rest hafter) hc
    obtain ⟨as, d', hrounds, has, hd'⟩ := h.tail.roundsRun hbound hafter hd
    refine ⟨a :: as, d', ?_, .cons ha has, hd'⟩
    simp only [Parser.many, hrun, hrounds]

end Parser.Rounds

end Cairn
