import Cairn.Proofs.Boundaries
import Cairn.Proofs.Thresholds

/-!
# Cairn — the scan for nesting, byte by byte

The scan can be made with an index into the bytes of the text and no characters at
all. Then it is a loop with operations that might go wrong: the index steps over two
bytes at once and may come to rest inside a character, comments are found by cutting
the text at the index, and the levels of pending operators are taken off the depth.
None of it ever does go wrong, and the loop ends with the result of the scan over
characters.

## Main definitions

* `Scanner`, `Scanner.step` — the state of the loop and one pass of it, in which a
  difference below zero and a cut inside a character are failures.
* `Scanner.After` — so many passes lead from one state to another.

## Main statements

* `Scanner.step_sound` — one pass, from any index.
* `Scanner.yields_scan` — the loop follows the scan over characters.
* `byteScan_safe` — both, for a whole text.
-/

namespace Cairn.Nesting

-- ---------------------------------------------------------------------------
-- The loop
-- ---------------------------------------------------------------------------

/-- What must not happen on the way. -/
inductive Mishap where
  /-- More levels are taken off than are open. -/
  | underflow
  /-- A text is cut inside a character or past its end. -/
  | offBoundary

namespace Levels

/-- The depth without the pending operators. -/
def base (l : Levels) : Except Mishap Nat :=
  if l.pending ≤ l.depth then .ok (l.depth - l.pending) else .error .underflow

/-- `settle`, if there are as many levels. -/
def settleChecked (l : Levels) : Except Mishap Levels := do
  let depth ← l.base
  pure { l with depth, pending := 0 }

/-- `step`, if there are as many levels. -/
def stepChecked (l : Levels) (c : Char) : Except Mishap Levels :=
  if c = '(' ∨ c = '\x7b' then do
    let base ← l.base
    pure { depth := l.depth + 1, pending := 0, opened := base :: l.opened }
  else if c = ')' ∨ c = '\x7d' then pure l.closeBracket
  else if c = '-' ∨ c = '!' then pure l.addPending
  else if c = ' ' ∨ c = '\t' ∨ c = '\r' ∨ c = '\n' then pure l
  else l.settleChecked

end Levels

/-- How many bytes there are in front of the first `pattern`, which is not empty. -/
def seek (pattern : List Char) : List Char → Option Nat
  | [] => none
  | c :: cs =>
    if pattern.isPrefixOf (c :: cs) then some 0 else (seek pattern cs).map (c.utf8Size + ·)

/-- The text from the byte `i` on. -/
def sliceFrom (source : String) (i : Nat) : Except Mishap (List Char) :=
  match textFrom? source i with
  | some rest => .ok rest
  | none => .error .offBoundary

/-- The location of the byte `i`. Inside a character it has no line and column of its
own and is said to be on the first ones. -/
def locate (source : String) (i : Nat) : Location :=
  let place : Place := ((textTo? source i).map (Place.after {})).getD {}
  { span := ⟨i, i + 1⟩, line := place.line, column := place.column }

/-- Where the loop is. -/
structure Scanner where
  /-- The byte that is next. -/
  index : Nat := 0
  levels : Levels := {}
  inString : Bool := false

/-- How one pass ends. -/
inductive Turn where
  | goOn (s : Scanner)
  | finish (result : Option ParseError)

namespace Scanner

/-- A string is over at a quote, at the end of the line and at the end of the text. -/
def leaveString (s : Scanner) : Except Mishap Turn := do
  let levels ← s.levels.settleChecked
  pure (.goOn ⟨s.index + 1, levels, false⟩)

/-- One pass in a string. -/
def stepString (source : String) (s : Scanner) : Except Mishap Turn :=
  match byteAt? source s.index with
  | none => s.leaveString
  | some c =>
    if c = '"' ∨ c = '\n' then s.leaveString
    else pure (.goOn { s with index := s.index + if c = '\\' then 2 else 1 })

/-- To the end of the line. -/
def passLine (source : String) (s : Scanner) : Except Mishap Turn := do
  let rest ← sliceFrom source s.index
  let stop := ((seek ['\n'] rest).map (s.index + ·)).getD (utf8Bytes source).length
  pure (.goOn { s with index := stop })

/-- Behind the end of a block comment. -/
def passBlock (source : String) (s : Scanner) : Except Mishap Turn := do
  let rest ← sliceFrom source (s.index + 2)
  let stop := ((seek ['*', '/'] rest).map (s.index + 2 + · + 2)).getD (utf8Bytes source).length
  pure (.goOn { s with index := stop })

/-- One byte that stands for itself. -/
def count (limit : Nat) (source : String) (s : Scanner) (c : Char) : Except Mishap Turn := do
  let levels ← s.levels.stepChecked c
  if limit < levels.depth then
    pure (.finish (some ⟨.tooDeep levels.depth limit, locate source s.index⟩))
  else pure (.goOn ⟨s.index + 1, levels, false⟩)

/-- One pass outside of strings. -/
def stepCode (limit : Nat) (source : String) (s : Scanner) : Except Mishap Turn :=
  match byteAt? source s.index with
  | none => pure (.finish none)
  | some c =>
    let next := byteAt? source (s.index + 1)
    if c = '/' ∧ next = some '/' then s.passLine source
    else if c = '/' ∧ next = some '*' then s.passBlock source
    else if c = '"' then pure (.goOn ⟨s.index + 1, s.levels, true⟩)
    else if c = '!' ∧ next = some '=' then do
      let levels ← s.levels.settleChecked
      pure (.goOn ⟨s.index + 2, levels, false⟩)
    else s.count limit source c

/-- One pass of the loop. -/
def step (limit : Nat) (source : String) (s : Scanner) : Except Mishap Turn :=
  if s.inString then s.stepString source else s.stepCode limit source

/-- `n` passes lead from one state to another. -/
inductive After (limit : Nat) (source : String) : Nat → Scanner → Scanner → Prop where
  | refl (s : Scanner) : After limit source 0 s s
  | next {n : Nat} {s t u : Scanner} (hstep : s.step limit source = .ok (.goOn t))
      (hrest : After limit source n t u) : After limit source (n + 1) s u

end Scanner

-- ---------------------------------------------------------------------------
-- Levels and searches
-- ---------------------------------------------------------------------------

namespace Levels

variable {l : Levels}

theorem base_eq (h : l.pending ≤ l.depth) : l.base = .ok (l.depth - l.pending) :=
  if_pos h

theorem settleChecked_eq (h : l.pending ≤ l.depth) : l.settleChecked = .ok l.settle := by
  rw [settleChecked, base_eq h]
  rfl

theorem stepChecked_eq (h : l.pending ≤ l.depth) (c : Char) :
    l.stepChecked c = .ok (l.step c) := by
  unfold stepChecked step
  rw [base_eq h, settleChecked_eq h]
  split_ifs <;> rfl

end Levels

theorem seek_cons {pattern : List Char} {c : Char} {cs : List Char} (h : ¬pattern <+: c :: cs) :
    seek pattern (c :: cs) = (seek pattern cs).map (c.utf8Size + ·) := by
  rw [seek, if_neg fun hmatch => h (List.isPrefixOf_iff_prefix.mp hmatch)]

theorem seek_lineFeed_cons {c : Char} (cs : List Char) (h : c ≠ '\n') :
    seek ['\n'] (c :: cs) = (seek ['\n'] cs).map (c.utf8Size + ·) := by
  refine seek_cons ?_
  rintro ⟨rest, heq⟩
  injection heq with hc
  exact h hc.symm

theorem seek_blockEnd_cons {c : Char} {cs : List Char}
    (h : ∀ rest, c = '*' → cs = '/' :: rest → False) :
    seek ['*', '/'] (c :: cs) = (seek ['*', '/'] cs).map (c.utf8Size + ·) := by
  refine seek_cons ?_
  rintro ⟨rest, heq⟩
  injection heq with hc hcs
  exact h rest hc.symm hcs.symm

-- ---------------------------------------------------------------------------
-- What one pass does
-- ---------------------------------------------------------------------------

namespace Scanner

/-- Where the loop is when the scan over characters is at the byte `i` with `rest` ahead
of it. The loop goes through comments at once. -/
def entering (i : Nat) (rest : List Char) (l : Levels) : Region → Scanner
  | .code => ⟨i, l, false⟩
  | .string => ⟨i, l, true⟩
  | .lineComment => ⟨i + (seek ['\n'] rest).getD (utf8Length rest), l, false⟩
  | .blockComment =>
    ⟨i + ((seek ['*', '/'] rest).map (· + 2)).getD (utf8Length rest), l, false⟩

/-- The byte is no part of a comment, a string or a two-character operator. -/
structure Alone (source : String) (i : Nat) (c : Char) : Prop where
  byte : byteAt? source i = some c
  not_quote : c ≠ '"'
  not_line : c = '/' → byteAt? source (i + 1) ≠ some '/'
  not_block : c = '/' → byteAt? source (i + 1) ≠ some '*'
  not_unequal : c = '!' → byteAt? source (i + 1) ≠ some '='

variable {limit : Nat} {source : String} {l : Levels} {p : Place} {rest : List Char} {i : Nat}
  {c : Char}

theorem step_done (h : byteAt? source i = none) :
    step limit source ⟨i, l, false⟩ = .ok (.finish none) := by
  simp only [step, Bool.false_eq_true, if_false, stepCode, h]
  rfl

theorem step_quote (h : byteAt? source i = some '"') :
    step limit source ⟨i, l, false⟩ = .ok (.goOn ⟨i + 1, l, true⟩) := by
  simp only [step, Bool.false_eq_true, if_false, stepCode, h]
  rfl

theorem step_alone (h : Alone source i c) (hl : l.pending ≤ l.depth) :
    step limit source ⟨i, l, false⟩ = .ok (if limit < (l.step c).depth then
      .finish (some ⟨.tooDeep (l.step c).depth limit, locate source i⟩)
      else .goOn ⟨i + 1, l.step c, false⟩) := by
  obtain ⟨hbyte, hquote, hline, hblock, hunequal⟩ := h
  simp only [step, Bool.false_eq_true, if_false, stepCode, hbyte]
  rw [if_neg fun h => hline h.1 h.2, if_neg fun h => hblock h.1 h.2, if_neg hquote,
    if_neg fun h => hunequal h.1 h.2, count, Levels.stepChecked_eq hl]
  simp only [bind, Except.bind]
  split <;> rfl

/-- The two bytes of two characters of ASCII. -/
theorem bytes_of_pair {d : Char} (h : RestAt source p (c :: d :: rest)) (hc : c.toNat < 128)
    (hd : d.toNat < 128) :
    byteAt? source p.offset = some c ∧ byteAt? source (p.offset + 1) = some d ∧
      ((p.next c).next d).offset = p.offset + 2 := by
  have hsecond := h.next.ascii hd
  rw [p.offset_next_ascii hc] at hsecond
  refine ⟨h.ascii hc, hsecond, ?_⟩
  rw [Place.offset_next_ascii _ hd, p.offset_next_ascii hc]

theorem step_unequal (h : RestAt source p ('!' :: '=' :: rest)) (hl : l.pending ≤ l.depth) :
    step limit source ⟨p.offset, l, false⟩ =
      .ok (.goOn (entering ((p.next '!').next '=').offset rest l.settle .code)) := by
  obtain ⟨hbyte, hnext, hindex⟩ := bytes_of_pair h (by decide) (by decide)
  simp only [step, Bool.false_eq_true, if_false, stepCode, hbyte, hnext, entering, hindex,
    Levels.settleChecked_eq hl]
  rfl

theorem step_lineComment (h : RestAt source p ('/' :: '/' :: rest)) :
    step limit source ⟨p.offset, l, false⟩ =
      .ok (.goOn (entering ((p.next '/').next '/').offset rest l .lineComment)) := by
  obtain ⟨hbyte, hnext, hindex⟩ := bytes_of_pair h (by decide) (by decide)
  have hlength := h.next.next.length_eq
  have hslice : sliceFrom source p.offset = .ok ('/' :: '/' :: rest) := by
    rw [sliceFrom, h.textFrom?_eq]
  have hseek : seek ['\n'] ('/' :: '/' :: rest) = (seek ['\n'] rest).map (1 + 1 + ·) := by
    rw [seek_lineFeed_cons _ (by decide), seek_lineFeed_cons _ (by decide), Option.map_map]
    simp only [Function.comp_def, ← Nat.add_assoc]
    rfl
  simp only [step, Bool.false_eq_true, if_false, stepCode, hbyte, hnext, and_self, if_true,
    passLine, hslice, hlength, entering, hindex, bind, Except.bind, hseek]
  cases seek ['\n'] rest with
  | none => rfl
  | some n =>
    simp only [Option.map_some, Option.getD_some, ← Nat.add_assoc]
    rfl

theorem step_blockComment (h : RestAt source p ('/' :: '*' :: rest)) :
    step limit source ⟨p.offset, l, false⟩ =
      .ok (.goOn (entering ((p.next '/').next '*').offset rest l .blockComment)) := by
  obtain ⟨hbyte, hnext, hindex⟩ := bytes_of_pair h (by decide) (by decide)
  have hlength := h.next.next.length_eq
  have hslice : sliceFrom source (p.offset + 2) = .ok rest := by
    rw [← hindex, sliceFrom, h.next.next.textFrom?_eq]
  simp only [step, Bool.false_eq_true, if_false, stepCode, hbyte, hnext, entering, hindex]
  rw [if_neg (by decide), if_pos ⟨trivial, trivial⟩]
  simp only [passBlock, hslice, hlength, hindex, bind, Except.bind]
  cases seek ['*', '/'] rest <;> rfl

theorem step_inside (h : byteAt? source i = some c) (hquote : c ≠ '"') (hfeed : c ≠ '\n') :
    step limit source ⟨i, l, true⟩ = .ok (.goOn ⟨i + if c = '\\' then 2 else 1, l, true⟩) := by
  simp only [step, if_true, stepString, h]
  rw [if_neg (not_or.mpr ⟨hquote, hfeed⟩)]
  rfl

theorem step_leave (h : ∀ c, byteAt? source i = some c → c = '"' ∨ c = '\n')
    (hl : l.pending ≤ l.depth) :
    step limit source ⟨i, l, true⟩ = .ok (.goOn ⟨i + 1, l.settle, false⟩) := by
  simp only [step, if_true, stepString, leaveString, Levels.settleChecked_eq hl]
  cases hbyte : byteAt? source i with
  | none => rfl
  | some c =>
    simp only [if_pos (h c hbyte)]
    rfl

-- ---------------------------------------------------------------------------
-- One pass is safe
-- ---------------------------------------------------------------------------

/-- How many passes are left at most. -/
def left (source : String) (s : Scanner) : Nat :=
  if s.index < (utf8Bytes source).length then (utf8Bytes source).length - s.index + 1
  else if s.inString then 1
  else 0

theorem left_lt {s t : Scanner} (hs : s.index < (utf8Bytes source).length)
    (ht : s.index < t.index) : t.left source < s.left source := by
  unfold left
  split_ifs <;> omega

theorem left_lt_of_leave {s t : Scanner} (hs : s.inString = true) (ht : t.inString = false)
    (hlt : s.index < t.index) : t.left source < s.left source := by
  simp only [left, hs, ht, if_true, Bool.false_eq_true, if_false]
  split_ifs <;> omega

/-- An error is about the byte at the index, which is an opening bracket or a sign and a
character of its own. -/
structure Raises (limit : Nat) (source : String) (s : Scanner) (e : ParseError) : Prop where
  byte : ∃ c, byteAt? source s.index = some c ∧ (c = '(' ∨ c = '\x7b' ∨ c = '-' ∨ c = '!')
  stops : Stops limit {} source.toList e
  span_eq : e.loc.span = ⟨s.index, s.index + 1⟩
  start_isValid : String.Pos.Raw.IsValid source ⟨s.index⟩
  stop_isValid : String.Pos.Raw.IsValid source ⟨s.index + 1⟩

end Scanner

/-- What a pass may come to: another one with fewer left, the end, or an error that is
located rightly. -/
def Turn.Sound (limit : Nat) (source : String) (s : Scanner) : Turn → Prop
  | .goOn t => t.levels.Within limit ∧ t.left source < s.left source
  | .finish none => True
  | .finish (some e) => s.Raises limit source e

namespace Scanner

variable {limit : Nat} {source : String} {l : Levels} {p : Place} {rest : List Char} {i : Nat}
  {c : Char}

theorem isAscii_of_bracket (hc : c = '(' ∨ c = '\x7b' ∨ c = '-' ∨ c = '!') : c.toNat < 128 := by
  rcases hc with rfl | rfl | rfl | rfl <;> decide

theorem locate_eq (h : RestAt source p (c :: rest)) (hc : c.toNat < 128) :
    locate source p.offset = .between p (p.next c) := by
  rw [locate, h.textTo?_eq, Location.between, p.offset_next_ascii hc]
  rfl

theorem raises_of_byte (h : byteAt? source i = some c)
    (hc : c = '(' ∨ c = '\x7b' ∨ c = '-' ∨ c = '!') :
    Raises limit source ⟨i, l, false⟩ ⟨.tooDeep (limit + 1) limit, locate source i⟩ := by
  have hascii := isAscii_of_bracket hc
  obtain ⟨p, rest, hp, rfl⟩ := restAt_of_byteAt? h hascii
  have hstop := hp.next.isValid
  rw [p.offset_next_ascii hascii] at hstop
  refine ⟨⟨c, h, hc⟩, ?_, rfl, hp.isValid, hstop⟩
  rw [locate_eq hp hascii]
  obtain ⟨front, hsource, rfl⟩ := hp
  exact ⟨front, c, rest, hsource, hc, rfl⟩

theorem sound_alone (h : Alone source i c) (hl : l.Within limit) :
    Turn.Sound limit source ⟨i, l, false⟩ (if limit < (l.step c).depth then
      .finish (some ⟨.tooDeep (l.step c).depth limit, locate source i⟩)
      else .goOn ⟨i + 1, l.step c, false⟩) := by
  rcases hl.step c with hwithin | ⟨hdepth, hc⟩
  · rw [if_neg (Nat.not_lt.mpr hwithin.depth_le)]
    exact ⟨hwithin, left_lt (lt_length_of_byteAt? h.byte) (Nat.lt_succ_self i)⟩
  · rw [if_pos (by omega), hdepth]
    exact raises_of_byte h.byte hc

/-- Two bytes of ASCII are two characters. -/
theorem restAt_of_pair {d : Char} (hc : c.toNat < 128) (hd : d.toNat < 128)
    (h : byteAt? source i = some c) (hnext : byteAt? source (i + 1) = some d) :
    ∃ p rest, RestAt source p (c :: d :: rest) ∧ p.offset = i := by
  obtain ⟨p, rest, hp, rfl⟩ := restAt_of_byteAt? h hc
  rw [← p.offset_next_ascii hc] at hnext
  obtain ⟨rest, rfl⟩ := hp.next.eq_cons hd hnext
  exact ⟨p, rest, hp, rfl⟩

/-- What can be at a byte outside of strings. -/
theorem code_cases (h : byteAt? source i = some c) :
    (∃ p rest, RestAt source p ('/' :: '/' :: rest) ∧ p.offset = i) ∨
      (∃ p rest, RestAt source p ('/' :: '*' :: rest) ∧ p.offset = i) ∨
      (∃ p rest, RestAt source p ('!' :: '=' :: rest) ∧ p.offset = i) ∨
      c = '"' ∨ Alone source i c := by
  by_cases hline : c = '/' ∧ byteAt? source (i + 1) = some '/'
  · obtain ⟨rfl, hnext⟩ := hline
    exact .inl (restAt_of_pair (by decide) (by decide) h hnext)
  by_cases hblock : c = '/' ∧ byteAt? source (i + 1) = some '*'
  · obtain ⟨rfl, hnext⟩ := hblock
    exact .inr (.inl (restAt_of_pair (by decide) (by decide) h hnext))
  by_cases hunequal : c = '!' ∧ byteAt? source (i + 1) = some '='
  · obtain ⟨rfl, hnext⟩ := hunequal
    exact .inr (.inr (.inl (restAt_of_pair (by decide) (by decide) h hnext)))
  by_cases hquote : c = '"'
  · exact .inr (.inr (.inr (.inl hquote)))
  · exact .inr (.inr (.inr (.inr ⟨h, hquote, fun hc hnext => hline ⟨hc, hnext⟩,
      fun hc hnext => hblock ⟨hc, hnext⟩, fun hc hnext => hunequal ⟨hc, hnext⟩⟩)))

theorem offset_lt_pair (p : Place) (c d : Char) : p.offset < ((p.next c).next d).offset := by
  have hc := c.utf8Size_pos
  rw [Place.offset_next, Place.offset_next]
  omega

/-- **One pass** of the loop has no mishap, from any index at all. -/
theorem step_sound (limit : Nat) (source : String) (s : Scanner) (hl : s.levels.Within limit) :
    ∃ turn, s.step limit source = .ok turn ∧ turn.Sound limit source s := by
  obtain ⟨i, l, inString⟩ := s
  cases inString with
  | true =>
    by_cases hleave : ∀ c, byteAt? source i = some c → c = '"' ∨ c = '\n'
    · refine ⟨_, step_leave hleave hl.pending_le, hl.settle, ?_⟩
      exact left_lt_of_leave rfl rfl (Nat.lt_succ_self i)
    · push Not at hleave
      obtain ⟨c, hbyte, hquote, hfeed⟩ := hleave
      refine ⟨_, step_inside hbyte hquote hfeed, hl, left_lt (lt_length_of_byteAt? hbyte) ?_⟩
      show i < i + if c = '\\' then 2 else 1
      split <;> omega
  | false =>
    cases hbyte : byteAt? source i with
    | none => exact ⟨_, step_done hbyte, trivial⟩
    | some c =>
      have hlt := lt_length_of_byteAt? hbyte
      rcases code_cases hbyte with ⟨p, rest, hp, rfl⟩ | ⟨p, rest, hp, rfl⟩ | ⟨p, rest, hp, rfl⟩ |
        rfl | halone
      · refine ⟨_, step_lineComment hp, hl, left_lt hlt ?_⟩
        exact Nat.lt_add_right _ (offset_lt_pair p '/' '/')
      · refine ⟨_, step_blockComment hp, hl, left_lt hlt ?_⟩
        exact Nat.lt_add_right _ (offset_lt_pair p '/' '*')
      · refine ⟨_, step_unequal hp hl.pending_le, hl.settle, left_lt hlt ?_⟩
        exact offset_lt_pair p '!' '='
      · exact ⟨_, step_quote hbyte, hl, left_lt hlt (Nat.lt_succ_self i)⟩
      · exact ⟨_, step_alone halone hl.pending_le, sound_alone halone hl⟩

/-- **A run** keeps to the limits, and every pass of it is one of those that were left. -/
theorem After.sound {n : Nat} {s t : Scanner} (h : After limit source n s t)
    (hl : s.levels.Within limit) :
    t.levels.Within limit ∧ n + t.left source ≤ s.left source := by
  induction h with
  | refl s => exact ⟨hl, Nat.le_of_eq (Nat.zero_add _)⟩
  | next hstep _ ih =>
    rename_i s t u _
    obtain ⟨turn, hturn, hsound⟩ := step_sound limit source s hl
    obtain rfl : turn = .goOn t := Except.ok.inj (hturn.symm.trans hstep)
    obtain ⟨hwithin, hlt⟩ := hsound
    obtain ⟨hlast, hle⟩ := ih hwithin
    exact ⟨hlast, by omega⟩

-- ---------------------------------------------------------------------------
-- The loop and the scan over characters
-- ---------------------------------------------------------------------------

/-- The loop ends with the result. -/
def Yields (limit : Nat) (source : String) (s : Scanner) (result : Option ParseError) : Prop :=
  ∃ n t, After limit source n s t ∧ t.step limit source = .ok (.finish result)

namespace Yields

variable {s t : Scanner} {result : Option ParseError}

theorem now (h : s.step limit source = .ok (.finish result)) : Yields limit source s result :=
  ⟨0, s, .refl s, h⟩

theorem next (hstep : s.step limit source = .ok (.goOn t)) (h : Yields limit source t result) :
    Yields limit source s result := by
  obtain ⟨n, u, hafter, hfinish⟩ := h
  exact ⟨n + 1, u, .next hstep hafter, hfinish⟩

/-- Several passes in a row, from any of them on. -/
theorem along {f : Nat → Scanner} {n : Nat}
    (hstep : ∀ k < n, (f k).step limit source = .ok (.goOn (f (k + 1))))
    (h : Yields limit source (f n) result) {k : Nat} (hk : k ≤ n) :
    Yields limit source (f k) result := by
  induction hk using Nat.decreasingInduction with
  | self => exact h
  | of_succ k hlt ih => exact .next (hstep k hlt) ih

theorem ofEnd (h : (utf8Bytes source).length ≤ i) : Yields limit source ⟨i, l, false⟩ none :=
  .now (step_done (byteAt?_eq_none.mpr h))

/-- A string that the text ends in. -/
theorem ofOpenString (h : (utf8Bytes source).length ≤ i) (hl : l.pending ≤ l.depth) :
    Yields limit source ⟨i, l, true⟩ none := by
  have hnone := byteAt?_eq_none.mpr h
  refine .next (step_leave (fun c hc => ?_) hl) (.ofEnd (Nat.le_succ_of_le h))
  rw [hnone] at hc
  cases hc

end Yields

theorem ne_of_wide {d : Char} (hc : 128 ≤ c.toNat) (hd : d.toNat < 128) : c ≠ d := by
  rintro rfl
  omega

theorem step_of_wide (hc : 128 ≤ c.toNat) : l.step c = l.settle := by
  have hne : ∀ d : Char, d.toNat < 128 → c ≠ d := fun d => ne_of_wide hc
  unfold Levels.step
  simp [hne '(' (by decide), hne '\x7b' (by decide), hne ')' (by decide), hne '\x7d' (by decide),
    hne '-' (by decide), hne '!' (by decide), hne ' ' (by decide), hne '\t' (by decide),
    hne '\r' (by decide), hne '\n' (by decide)]

theorem Alone.of_wide (h : byteAt? source i = some c) (hc : 128 ≤ c.toNat) : Alone source i c :=
  ⟨h, ne_of_wide hc (by decide), fun heq => absurd heq (ne_of_wide hc (by decide)),
    fun heq => absurd heq (ne_of_wide hc (by decide)),
    fun heq => absurd heq (ne_of_wide hc (by decide))⟩

/-- Through a character beyond ASCII, all of whose bytes settle the levels. -/
theorem yields_wide {result : Option ParseError} (h : RestAt source p (c :: rest))
    (hc : 128 ≤ c.toNat) (hl : l.Within limit)
    (hnext : Yields limit source ⟨(p.next c).offset, l.settle, false⟩ result) :
    Yields limit source ⟨p.offset, l, false⟩ result := by
  have hpass : ∀ k < c.utf8Size, ∀ m : Levels, m.Within limit →
      step limit source ⟨p.offset + k, m, false⟩ =
        .ok (.goOn ⟨p.offset + (k + 1), m.settle, false⟩) := by
    intro k hk m hm
    obtain ⟨d, hbyte, hd⟩ := h.wide hc hk
    rw [step_alone (.of_wide hbyte hd) hm.pending_le, step_of_wide hd,
      if_neg (Nat.not_lt.mpr hm.settle.depth_le), Nat.add_assoc]
  rw [Place.offset_next] at hnext
  -- The first byte settles the levels, and to settle them again changes nothing.
  refine .next (hpass 0 c.utf8Size_pos l hl) ?_
  exact .along (f := fun k => ⟨p.offset + k, l.settle, false⟩)
    (fun k hk => hpass k hk l.settle hl.settle) hnext c.utf8Size_pos

/-- Through the rest of a character beyond ASCII in a string. -/
theorem yields_wide_string {result : Option ParseError} (h : RestAt source p (c :: rest))
    (hc : 128 ≤ c.toNat) {k : Nat} (hk : k ≤ c.utf8Size)
    (hnext : Yields limit source ⟨(p.next c).offset, l, true⟩ result) :
    Yields limit source ⟨p.offset + k, l, true⟩ result := by
  rw [Place.offset_next] at hnext
  refine .along (f := fun k => ⟨p.offset + k, l, true⟩) (fun k hk => ?_) hnext hk
  obtain ⟨d, hbyte, hd⟩ := h.wide hc hk
  rw [step_inside hbyte (ne_of_wide hd (by decide)) (ne_of_wide hd (by decide)),
    if_neg (ne_of_wide hd (by decide)), Nat.add_assoc]

/-- A character of ASCII that no other one makes part of something. -/
theorem Alone.of_restAt (h : RestAt source p (c :: rest)) (hc : c.toNat < 128) (hquote : c ≠ '"')
    (hline : ∀ cs, c = '/' → rest = '/' :: cs → False)
    (hblock : ∀ cs, c = '/' → rest = '*' :: cs → False)
    (hunequal : ∀ cs, c = '!' → rest = '=' :: cs → False) : Alone source p.offset c := by
  have hsecond : ∀ d : Char, d.toNat < 128 → byteAt? source (p.offset + 1) = some d →
      ∃ cs, rest = d :: cs := by
    intro d hd hbyte
    rw [← p.offset_next_ascii hc] at hbyte
    exact h.next.eq_cons hd hbyte
  refine ⟨h.ascii hc, hquote, fun heq hbyte => ?_, fun heq hbyte => ?_, fun heq hbyte => ?_⟩
  · obtain ⟨cs, hrest⟩ := hsecond '/' (by decide) hbyte
    exact hline cs heq hrest
  · obtain ⟨cs, hrest⟩ := hsecond '*' (by decide) hbyte
    exact hblock cs heq hrest
  · obtain ⟨cs, hrest⟩ := hsecond '=' (by decide) hbyte
    exact hunequal cs heq hrest

theorem entering_lineComment (hc : c ≠ '\n') :
    entering p.offset (c :: rest) l .lineComment =
      entering (p.next c).offset rest l .lineComment := by
  rw [entering, entering, seek_lineFeed_cons rest hc, Place.offset_next, utf8Length]
  cases seek ['\n'] rest <;> simp [Nat.add_assoc]

theorem entering_blockComment (hend : ∀ cs, c = '*' → rest = '/' :: cs → False) :
    entering p.offset (c :: rest) l .blockComment =
      entering (p.next c).offset rest l .blockComment := by
  rw [entering, entering, seek_blockEnd_cons hend, Place.offset_next, utf8Length]
  cases seek ['*', '/'] rest <;> simp [Nat.add_assoc]

/-- Behind the end of a line comment the scan goes on as in front of it. -/
theorem step_lineFeed (h : RestAt source p ('\n' :: rest)) (hl : l.Within limit) :
    step limit source (entering p.offset ('\n' :: rest) l .lineComment) =
      .ok (.goOn (entering (p.next '\n').offset rest l .code)) := by
  have halone : Alone source p.offset '\n' := by
    refine .of_restAt h (by decide) (by decide) ?_ ?_ ?_ <;> intro cs hc <;> cases hc
  refine (step_alone halone hl.pending_le).trans ?_
  rw [show l.step '\n' = l from rfl, if_neg (Nat.not_lt.mpr hl.depth_le),
    p.offset_next_ascii (by decide)]
  rfl

/-- **The loop follows the scan** over characters to its end. -/
theorem yields_scan {region : Region} (hl : l.Within limit) (h : RestAt source p rest) :
    Yields limit source (entering p.offset rest l region) (scan limit region l p rest) := by
  fun_induction scan limit region l p rest with
  | case1 l p cs ih => exact .next (step_lineComment h) (ih hl h.next.next)
  | case2 l p cs ih => exact .next (step_blockComment h) (ih hl h.next.next)
  | case3 l p cs ih => exact .next (step_unequal h hl.pending_le) (ih hl.settle h.next.next)
  | case4 l p cs _ _ _ ih => exact .next (step_quote (h.ascii (by decide))) (ih hl h.next)
  | case5 l p c cs hline hblock hunequal hquote l' hdeep =>
    rcases Nat.lt_or_ge c.toNat 128 with hc | hc
    · have halone := Alone.of_restAt h hc hquote hline hblock hunequal
      refine .now ((step_alone halone hl.pending_le).trans ?_)
      rw [if_pos hdeep, locate_eq h hc]
    · rw [show l' = l.settle from step_of_wide hc] at hdeep
      exact absurd hl.settle.depth_le (Nat.not_le.mpr hdeep)
  | case6 l p c cs hline hblock hunequal hquote l' hdeep ih =>
    rcases Nat.lt_or_ge c.toNat 128 with hc | hc
    · have halone := Alone.of_restAt h hc hquote hline hblock hunequal
      rcases hl.step c with hwithin | ⟨hdepth, -⟩
      · refine .next ((step_alone halone hl.pending_le).trans ?_) (ih hwithin h.next)
        rw [if_neg hdeep, ← p.offset_next_ascii hc]
        rfl
      · exact absurd (show limit < l'.depth by rw [hdepth]; omega) hdeep
    · have hsettle : l' = l.settle := step_of_wide hc
      rw [hsettle] at ih ⊢
      exact yields_wide h hc hl (ih hl.settle h.next)
  | case7 l p c cs ih =>
    by_cases hc : c = '\n'
    · subst hc
      exact .next (step_lineFeed h hl) (ih hl h.next)
    · rw [entering_lineComment hc]
      rw [if_neg hc] at ih ⊢
      exact ih hl h.next
  | case8 l p cs ih => exact ih hl h.next.next
  | case9 l p c cs hend ih =>
    rw [entering_blockComment hend]
    exact ih hl h.next
  | case10 l p c cs ih =>
    refine .next (step_inside (h.ascii (by decide)) (by decide) (by decide)) ?_
    have hescape : p.offset + 2 = (p.next '\\').offset + 1 := by
      rw [p.offset_next_ascii (by decide)]
    rw [if_pos rfl, hescape]
    rcases Nat.lt_or_ge c.toNat 128 with hc | hc
    · rw [← Place.offset_next_ascii _ hc]
      exact ih hl h.next.next
    · exact yields_wide_string h.next hc c.utf8Size_pos (ih hl h.next.next)
  | case11 l p c cs hescape hc ih =>
    have hascii : c.toNat < 128 := by
      rcases hc with rfl | rfl <;> decide
    have hleave : ∀ d, byteAt? source p.offset = some d → d = '"' ∨ d = '\n' := by
      intro d hd
      rw [h.ascii hascii] at hd
      cases hd
      exact hc
    refine .next (step_leave hleave hl.pending_le) ?_
    rw [← p.offset_next_ascii hascii]
    exact ih hl.settle h.next
  | case12 l p c cs hescape hc ih =>
    obtain ⟨hquote, hfeed⟩ := not_or.mp hc
    rcases Nat.lt_or_ge c.toNat 128 with hascii | hwide
    · refine .next (step_inside (h.ascii hascii) hquote hfeed) ?_
      by_cases hbackslash : c = '\\'
      · -- The backslash is the last character, and the index goes past the end.
        cases cs with
        | nil =>
          have hlength := h.next.length_eq
          rw [p.offset_next_ascii hascii] at hlength
          rw [if_pos hbackslash]
          exact .ofOpenString (Nat.le_succ_of_le (Nat.le_of_eq hlength)) hl.pending_le
        | cons d cs => exact absurd rfl (hescape d cs hbackslash)
      · rw [if_neg hbackslash, ← p.offset_next_ascii hascii]
        exact ih hl h.next
    · exact yields_wide_string h hwide (Nat.zero_le _) (ih hl h.next)
  | case13 region l p =>
    have hlength := Nat.le_of_eq h.length_eq
    cases region with
    | code => exact .ofEnd hlength
    | lineComment => exact .ofEnd hlength
    | blockComment => exact .ofEnd hlength
    | string => exact .ofOpenString hlength hl.pending_le

end Scanner

theorem Scanner.left_start_le (source : String) :
    ({} : Scanner).left source ≤ (utf8Bytes source).length + 1 := by
  unfold left
  split <;> simp

/-- **The scan is safe on every text.** The loop over the bytes ends, with the result of
the scan over characters, and makes no more passes than there are bytes and one. In
front of each pass what is pending is among the open levels, and neither those nor the
levels to go back to are past the limit. No pass takes off more levels than are open or
cuts the text inside a character, and only a bracket or a sign raises an error. -/
theorem byteScan_safe (limit : Nat) (source : String) :
    Scanner.Yields limit source {} (check limit source.toList) ∧
      ∀ n s, Scanner.After limit source n {} s →
        n ≤ (utf8Bytes source).length + 1 ∧ s.levels.Within limit ∧
          ∃ turn, s.step limit source = .ok turn ∧
            ∀ e, turn = .finish (some e) → s.Raises limit source e := by
  have hyields : Scanner.Yields limit source (.entering 0 source.toList {} .code)
      (scan limit .code {} {} source.toList) := Scanner.yields_scan (.start limit) (.start source)
  refine ⟨hyields, fun n s hafter => ?_⟩
  obtain ⟨hwithin, hle⟩ := hafter.sound (.start limit)
  have hstart := Scanner.left_start_le source
  obtain ⟨turn, hturn, hsound⟩ := Scanner.step_sound limit source s hwithin
  refine ⟨by omega, hwithin, turn, hturn, ?_⟩
  rintro e rfl
  exact hsound

/-- An escape can lead into a character. -/
theorem byteScan_safe_insideCharacter :
    Scanner.After 0 "\"\\é(" 2 {} ⟨3, {}, true⟩ ∧
      ¬String.Pos.Raw.IsValid "\"\\é(" ⟨3⟩ ∧
      ∃ turn, Scanner.step 0 "\"\\é(" ⟨3, {}, true⟩ = .ok turn := by
  have hafter : Scanner.After 0 "\"\\é(" 2 {} ⟨3, {}, true⟩ := .next rfl (.next rfl (.refl _))
  obtain ⟨-, -, turn, hturn, -⟩ := (byteScan_safe 0 "\"\\é(").2 2 _ hafter
  exact ⟨hafter, by decide +kernel, turn, hturn⟩

end Cairn.Nesting
