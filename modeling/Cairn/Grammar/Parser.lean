import Cairn.Grammar.Word
import Cairn.Source.Cursor

/-!
# Cairn — parsers that explain themselves

A parser has two sides. `run` says what it accepts: the value read and the
cursor behind it, or nothing. `trace` says what it tried: it collects the rules
that failed farthest into the text, from which a syntax error is worded. The
two are kept apart so that what a parser accepts can be understood without
looking at how a failure is reported.

Alternatives are ordered: a later one is tried only where all earlier ones
fail. Repetition is greedy. Between the parts of a sequence, and between the
rounds of a repetition, a gap is skipped; a gap behind the last round is not.

## Main definitions

* `Attempts`     — the rules that failed at the farthest point so far.
* `Parser.rule`  — names a parser, so that its failure can be reported.
* `Parser.many`, `Parser.optional`, `Parser.orElse`, `Parser.seq` — the ways to
  build larger parsers from smaller ones.
-/

namespace Cairn

-- ---------------------------------------------------------------------------
-- Failures
-- ---------------------------------------------------------------------------

/-- The rules that failed at the farthest point reached so far. -/
structure Attempts where
  reached : Cursor
  rules : List Rule

namespace Attempts

/-- Nothing was tried yet. -/
def start (c : Cursor) : Attempts :=
  ⟨c, []⟩

/-- The rules that failed at `c`, if that is the farthest point. -/
def rulesAt (t : Attempts) (c : Cursor) : List Rule :=
  if t.reached.place.offset = c.place.offset then t.rules else []

/-- Records that the rule `r` failed at `c`, where `before` and `after` are what
was on record when the rule was tried and when it had failed. The parts of a
rule that failed at the point where the rule starts are replaced by the rule
itself, unless there is exactly one: then that part says more. -/
def record (r : Rule) (c : Cursor) (before after : Attempts) : Attempts :=
  let known := before.rulesAt c
  if (after.rulesAt c).length = known.length + 1 then after
  else if after.reached.place.offset = c.place.offset then ⟨c, after.rules.take known.length ++ [r]⟩
  else if after.reached.place.offset < c.place.offset then ⟨c, [r]⟩
  else after

end Attempts

-- ---------------------------------------------------------------------------
-- Parsers
-- ---------------------------------------------------------------------------

/-- Reads a value of type `α` from the front of a text. -/
structure Parser (α : Type) where
  /-- What is accepted, and the cursor behind it. -/
  run : Cursor → Option (α × Cursor)
  /-- Adds the failures met on the way to those on record. -/
  trace : Cursor → Attempts → Attempts

/-- The cursor behind the gap that starts here. -/
def Cursor.skipGap (c : Cursor) : Cursor :=
  c.advance (Word.gap c.rest)

namespace Parser

variable {α β : Type}

/-- Reads one word, of the length that `measure` finds, and returns it. -/
def word (measure : List Char → Option Nat) : Parser (List Char) where
  run c := (measure c.rest).map fun n => (c.rest.take n, c.advance n)
  trace _ t := t

/-- Succeeds at the end of the text only. -/
def endOfText : Parser Unit where
  run c := if c.rest.isEmpty then some ((), c) else none
  trace _ t := t

/-- Never succeeds. -/
def fail : Parser α where
  run _ := none
  trace _ t := t

/-- Reads nothing. -/
def pure (a : α) : Parser α where
  run c := some (a, c)
  trace _ t := t

/-- A parser that is put together only when it is used. -/
def delay (p : Unit → Parser α) : Parser α where
  run c := (p ()).run c
  trace c t := (p ()).trace c t

/-- Applies a function to the value read. -/
def map (f : α → β) (p : Parser α) : Parser β where
  run c := (p.run c).map fun r => (f r.1, r.2)
  trace := p.trace

/-- First `p`, then `q` behind the gap that follows. -/
def seq (p : Parser (α → β)) (q : Unit → Parser α) : Parser β where
  run c :=
    match p.run c with
    | none => none
    | some (f, d) => ((q ()).run d.skipGap).map fun r => (f r.1, r.2)
  trace c t :=
    match p.run c with
    | none => p.trace c t
    | some (_, d) => (q ()).trace d.skipGap (p.trace c t)

/-- `p`, and `q` where `p` fails. -/
def orElse (p : Parser α) (q : Unit → Parser α) : Parser α where
  run c :=
    match p.run c with
    | some r => some r
    | none => (q ()).run c
  trace c t :=
    match p.run c with
    | some _ => p.trace c t
    | none => (q ()).trace c (p.trace c t)

/-- `p`, or nothing where `p` fails. -/
def optional (p : Parser α) : Parser (Option α) where
  run c :=
    match p.run c with
    | some (a, d) => some (some a, d)
    | none => some (none, c)
  trace := p.trace

/-- Up to `n` further rounds of `p`, each behind a gap. -/
def roundsRun (p : Parser α) : Nat → Cursor → List α × Cursor
  | 0, c => ([], c)
  | n + 1, c =>
    match p.run c.skipGap with
    | none => ([], c)
    | some (a, d) =>
      let more := p.roundsRun n d
      (a :: more.1, more.2)

/-- What those rounds try. -/
def roundsTrace (p : Parser α) : Nat → Cursor → Attempts → Attempts
  | 0, _, t => t
  | n + 1, c, t =>
    match p.run c.skipGap with
    | none => p.trace c.skipGap t
    | some (_, d) => p.roundsTrace n d (p.trace c.skipGap t)

/-- As many rounds of `p` as there are. Each takes up at least one character,
so the length of the text bounds their number. -/
def many (p : Parser α) : Parser (List α) where
  run c :=
    match p.run c with
    | none => some ([], c)
    | some (a, d) =>
      let more := p.roundsRun c.rest.length d
      some (a :: more.1, more.2)
  trace c t :=
    match p.run c with
    | none => p.trace c t
    | some (_, d) => p.roundsTrace c.rest.length d (p.trace c t)

/-- Gives the parser a name under which its failure is reported. -/
def rule (r : Rule) (p : Parser α) : Parser α where
  run := p.run
  trace c t :=
    match p.run c with
    | some _ => p.trace c t
    | none => Attempts.record r c t (p.trace c t)

/-- Hands the location of what was read to the value. -/
def located (p : Parser (Location → α)) : Parser α where
  run c := (p.run c).map fun r => (r.1 (c.upTo r.2), r.2)
  trace := p.trace

instance : Functor Parser where
  map := Parser.map

instance : Seq Parser where
  seq := Parser.seq

instance : SeqLeft Parser where
  seqLeft p q := Parser.seq (p.map fun a _ => a) q

instance : SeqRight Parser where
  seqRight p q := Parser.seq (p.map fun _ b => b) q

instance : OrElse (Parser α) where
  orElse := Parser.orElse

end Parser

end Cairn
