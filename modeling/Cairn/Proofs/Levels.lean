import Cairn.Parse.Nesting
import Cairn.Proofs.Words

/-!
# Cairn — the scan, word by word

The scan for nesting goes over a text character by character and the grammar
word by word, each with its own idea of what a comment is. This module follows
the scan over whatever the grammar skips or takes up as one word. The two part
in one place only: to the scan a line comment ends at the line feed, and to the
grammar at a carriage return, too. A text is *quiet* if that makes no
difference.

## Main statements

* `Nesting.scan_gapFrom`    — a gap leaves the scan where it was.
* `Nesting.scan_stringTail` — a text in quotes settles the levels.
* `Nesting.Safe.word`       — so does a word without signs and brackets.
* `Nesting.Safe.operator`   — and a binary operator, or else its operand will.
-/

namespace Cairn

-- ---------------------------------------------------------------------------
-- Gaps
-- ---------------------------------------------------------------------------

namespace Word

/-- Only a block comment can lack its end. -/
theorem isSome_gapFrom {state : GapState} {cs : List Char} (h : state ≠ .blockComment) :
    (gapFrom state cs).isSome := by
  fun_induction gapFrom state cs with
  | case1 cs ih | case7 c cs _ ih | case8 c cs _ ih =>
    rw [Option.isSome_map]
    exact ih (by simp)
  | case4 c cs _ _ _ ih =>
    rw [Option.isSome_map]
    exact ih (by simp)
  | case2 | case3 | case5 | case6 | case9 => rfl
  | case10 | case11 | case12 => exact absurd rfl h

theorem gapFrom_gap (cs : List Char) : gapFrom .blanks cs = some (gap cs) := by
  have hsome : (gapFrom .blanks cs).isSome := isSome_gapFrom (by simp)
  obtain ⟨n, hn⟩ := Option.isSome_iff_exists.mp hsome
  rw [gap, hn]
  rfl

/-- No gap is behind a gap. -/
theorem gapFrom_drop {state : GapState} {cs : List Char} {n : Nat}
    (h : gapFrom state cs = some n) : gapFrom .blanks (cs.drop n) = some 0 := by
  fun_induction gapFrom state cs generalizing n with
  | case1 cs ih | case4 c cs _ _ _ ih | case7 c cs _ ih | case8 c cs _ ih | case10 cs ih
  | case11 c cs _ ih =>
    obtain ⟨m, hm, rfl⟩ := Option.map_eq_some_iff.mp h
    exact ih hm
  | case2 cs m hm ih =>
    cases h
    exact ih hm
  | case3 cs hnone ih =>
    cases h
    rw [List.drop_zero, gapFrom, hnone]
  | case5 c cs hline hblock hc =>
    cases h
    rw [List.drop_zero, gapFrom, if_neg hc]
    · exact hline
    · exact hblock
  | case6 | case9 =>
    cases h
    rfl
  | case12 => cases h

end Word

-- ---------------------------------------------------------------------------
-- Quiet texts
-- ---------------------------------------------------------------------------

namespace Nesting

/-- Only blanks stand in front of the next line feed or line comment. -/
def blankLine : List Char → Bool
  | '/' :: '/' :: _ => true
  | c :: cs => c = '\n' || Word.isBlank c && blankLine cs
  | [] => true

/-- In each line comment of the text, only blanks stand between a carriage return
and the line feed, or between it and another line comment. -/
def quiet : Region → List Char → Bool
  | .code, '/' :: '/' :: cs => quiet .lineComment cs
  | .code, '/' :: '*' :: cs => quiet .blockComment cs
  | .code, c :: cs => quiet (if c = '"' then .string else .code) cs
  | .lineComment, c :: cs =>
    if c = '\n' then quiet .code cs
    else (c ≠ '\r' || blankLine cs) && quiet .lineComment cs
  | .blockComment, '*' :: '/' :: cs => quiet .code cs
  | .blockComment, _ :: cs => quiet .blockComment cs
  | .string, '\\' :: _ :: cs => quiet .string cs
  | .string, c :: cs => quiet (if c = '"' ∨ c = '\n' then .code else .string) cs
  | _, [] => true

/-- The scan goes through the text with the levels `l` open in front of it, and
the text is quiet. -/
structure Passes (limit : Nat) (region : Region) (l : Levels) (cs : List Char) : Prop where
  scan_eq : ∃ p, scan limit region l p cs = none
  isQuiet : quiet region cs

-- ---------------------------------------------------------------------------
-- One character
-- ---------------------------------------------------------------------------

section

variable {limit : Nat} {l : Levels} {p : Place} {c : Char} {cs : List Char}

/-- The character starts no comment and no `!=`, and it is no quote. -/
structure Single (c : Char) (cs : List Char) : Prop where
  slash : c = '/' → cs.head? ≠ some '/' ∧ cs.head? ≠ some '*'
  bang : c = '!' → cs.head? ≠ some '='
  quote : c ≠ '"'

theorem Single.of_ne (h : c ≠ '/' ∧ c ≠ '!' ∧ c ≠ '"') : Single c cs :=
  ⟨fun heq => absurd heq h.1, fun heq => absurd heq h.2.1, h.2.2⟩

theorem Single.no_line (h : Single c cs) (rest : List Char) (hc : c = '/') : cs ≠ '/' :: rest := by
  rintro rfl
  exact (h.slash hc).1 rfl

theorem Single.no_block (h : Single c cs) (rest : List Char) (hc : c = '/') :
    cs ≠ '*' :: rest := by
  rintro rfl
  exact (h.slash hc).2 rfl

theorem quiet_char (h : Single c cs) : quiet .code (c :: cs) = quiet .code cs := by
  rw [quiet, if_neg h.quote]
  · exact h.no_line
  · exact h.no_block

theorem scan_char (h : Single c cs) :
    scan limit .code l p (c :: cs) =
      if limit < (l.step c).depth then
        some ⟨.tooDeep (l.step c).depth limit, .between p (p.next c)⟩
      else scan limit .code (l.step c) (p.next c) cs := by
  have hne : ∀ rest, c = '!' → cs = '=' :: rest → False := by
    rintro rest hc rfl
    exact h.bang hc rfl
  rw [scan, if_neg h.quote]
  · exact h.no_line
  · exact h.no_block
  · exact hne

theorem quiet_line (hc : c ≠ '\n') (h : quiet .lineComment (c :: cs)) :
    quiet .lineComment cs ∧ (c = '\r' → blankLine cs) := by
  rw [quiet, if_neg hc, Bool.and_eq_true] at h
  refine ⟨h.2, ?_⟩
  rintro rfl
  simpa using h.1

theorem scan_line (hc : c ≠ '\n') :
    scan limit .lineComment l p (c :: cs) = scan limit .lineComment l (p.next c) cs := by
  rw [scan, if_neg hc]

end

-- ---------------------------------------------------------------------------
-- Over a gap
-- ---------------------------------------------------------------------------

/-- Where the scan is while a gap is skipped. -/
inductive Follows : Word.GapState → Region → List Char → Prop
  | code {cs : List Char} : Follows .blanks .code cs
  | line {cs : List Char} : Follows .lineComment .lineComment cs
  | block {cs : List Char} : Follows .blockComment .blockComment cs
  /-- Behind a carriage return the scan is still in its comment. -/
  | lineEnd {cs : List Char} : blankLine cs → Follows .blanks .lineComment cs

theorem blankLine_cons {c : Char} {cs : List Char}
    (hslash : ∀ rest, c = '/' → cs = '/' :: rest → False) (h : blankLine (c :: cs)) :
    Word.isBlank c ∧ (c ≠ '\n' → blankLine cs) := by
  rw [blankLine, Bool.or_eq_true, Bool.and_eq_true] at h
  · rcases h with hnewline | ⟨hblank, hrest⟩
    · obtain rfl := of_decide_eq_true hnewline
      exact ⟨rfl, fun hne => absurd rfl hne⟩
    · exact ⟨hblank, fun _ => hrest⟩
  · exact hslash

theorem step_of_isBlank {c : Char} (hc : Word.isBlank c) (l : Levels) : l.step c = l := by
  rcases Word.isBlank_cases hc with rfl | rfl | rfl | rfl <;> rfl

variable {limit : Nat} {l : Levels}

theorem Single.of_isBlank {c : Char} (hc : Word.isBlank c) (cs : List Char) : Single c cs := by
  refine .of_ne ⟨?_, ?_, ?_⟩ <;> rintro rfl <;> cases hc

/-- At the end of a gap the scan is in code again, with the levels as they were.
That the limit is kept so far matters where blanks are read as code. -/
theorem scan_gapFrom {state : Word.GapState} {region : Region} {cs : List Char} {n : Nat}
    (hl : l.depth ≤ limit) (hn : Word.gapFrom state cs = some n)
    (hfollows : Follows state region cs) (hquiet : quiet region cs) (p : Place) :
    quiet .code (cs.drop n) ∧
      ∃ p', scan limit region l p cs = scan limit .code l p' (cs.drop n) := by
  -- The induction follows the gap; what carries it is where the scan is meanwhile.
  fun_induction Word.gapFrom state cs generalizing region n p with
  | case1 cs ih =>
    obtain ⟨m, hm, rfl⟩ := Option.map_eq_some_iff.mp hn
    cases hfollows with
    | code => exact ih hm .line hquiet _
    | lineEnd =>
      -- The grammar opens a comment in what the scan never left.
      have hsecond := (quiet_line (by decide) hquiet).1
      rw [scan_line (by decide), scan_line (by decide)]
      exact ih hm .line (quiet_line (by decide) hsecond).1 _
  | case2 cs m hm ih =>
    cases hn
    cases hfollows with
    | code => exact ih hm .block hquiet _
    | lineEnd hblank => cases hblank
  | case3 cs hnone ih =>
    cases hn
    cases hfollows with
    | code => exact ⟨hquiet, p, rfl⟩
    | lineEnd hblank => cases hblank
  | case4 c cs hline hblock hc ih =>
    obtain ⟨m, hm, rfl⟩ := Option.map_eq_some_iff.mp hn
    cases hfollows with
    | code =>
      have hsingle := Single.of_isBlank hc cs
      rw [quiet_char hsingle] at hquiet
      rw [scan_char hsingle, step_of_isBlank hc, if_neg (Nat.not_lt_of_le hl)]
      exact ih hm .code hquiet _
    | lineEnd hblank =>
      by_cases hnewline : c = '\n'
      · subst hnewline
        exact ih hm .code hquiet _
      · have hrest := (blankLine_cons hline hblank).2 hnewline
        rw [scan_line hnewline]
        exact ih hm (.lineEnd hrest) (quiet_line hnewline hquiet).1 _
  | case5 c cs hline _ hc =>
    cases hn
    cases hfollows with
    | code => exact ⟨hquiet, p, rfl⟩
    | lineEnd hblank => exact absurd (blankLine_cons hline hblank).1 hc
  | case6 | case9 =>
    cases hn
    cases hfollows <;> exact ⟨rfl, p, rfl⟩
  | case7 c cs hc ih =>
    obtain ⟨m, hm, rfl⟩ := Option.map_eq_some_iff.mp hn
    cases hfollows with
    | line =>
      by_cases hnewline : c = '\n'
      · subst hnewline
        exact ih hm .code hquiet _
      · have hreturn : c = '\r' := by simpa [Word.isNewline, hnewline] using hc
        obtain ⟨hrest, hblank⟩ := quiet_line hnewline hquiet
        rw [scan_line hnewline]
        exact ih hm (.lineEnd (hblank hreturn)) hrest _
  | case8 c cs hc ih =>
    obtain ⟨m, hm, rfl⟩ := Option.map_eq_some_iff.mp hn
    cases hfollows with
    | line =>
      have hnewline : c ≠ '\n' := by
        rintro rfl
        exact hc rfl
      rw [scan_line hnewline]
      exact ih hm .line (quiet_line hnewline hquiet).1 _
  | case10 cs ih =>
    obtain ⟨m, hm, rfl⟩ := Option.map_eq_some_iff.mp hn
    cases hfollows with
    | block => exact ih hm .code hquiet _
  | case11 c cs hopen ih =>
    obtain ⟨m, hm, rfl⟩ := Option.map_eq_some_iff.mp hn
    cases hfollows with
    | block =>
      rw [quiet] at hquiet
      · rw [scan]
        · exact ih hm .block hquiet _
        · exact hopen
      · exact hopen
  | case12 => cases hn

-- ---------------------------------------------------------------------------
-- Over a word
-- ---------------------------------------------------------------------------

@[simp] theorem Levels.settle_addPending (l : Levels) : l.addPending.settle = l.settle := by
  simp only [settle, addPending, Nat.add_sub_add_right]

@[simp] theorem Levels.closeBracket_openBracket (l : Levels) :
    l.openBracket.closeBracket = l.settle := rfl

theorem Levels.settle_depth_le (l : Levels) : l.settle.depth ≤ l.depth :=
  Nat.sub_le _ _

/-- To the scan the character is part of an operand or an operator that is not a
sign. -/
def isPlain (c : Char) : Bool :=
  !(['/', '!', '"', '(', ')', '\x7b', '\x7d', '-'].contains c || Word.isBlank c)

theorem step_of_isPlain {c : Char} (hc : isPlain c) (l : Levels) : l.step c = l.settle := by
  simp only [isPlain, Word.isBlank, List.contains_cons, List.contains_nil, Bool.or_false,
    Bool.not_or, Bool.and_eq_true, Bool.not_eq_true', beq_eq_false_iff_ne] at hc
  simp [Levels.step, hc]

theorem Single.of_isPlain {c : Char} (hc : isPlain c) (cs : List Char) : Single c cs := by
  refine .of_ne ⟨?_, ?_, ?_⟩ <;> rintro rfl <;> cases hc

theorem isPlain_of_isWordChar {c : Char} (hc : Word.isWordChar c) : isPlain c := by
  refine Bool.not_eq_eq_eq_not.mpr (Bool.or_eq_false_iff.mpr ⟨?_, ?_⟩)
  · refine Bool.eq_false_iff.mpr fun hin => ?_
    simp only [List.contains_cons, List.contains_nil, Bool.or_false, Bool.or_eq_true,
      beq_iff_eq] at hin
    rcases hin with rfl | rfl | rfl | rfl | rfl | rfl | rfl | rfl <;> cases hc
  · refine Bool.eq_false_iff.mpr fun hblank => ?_
    rcases Word.isBlank_cases hblank with rfl | rfl | rfl | rfl <;> cases hc

/-- The levels stay within the limit, now and in the text. -/
structure Safe (limit : Nat) (l : Levels) (cs : List Char) : Prop where
  depth_le : l.depth ≤ limit
  passes : Passes limit .code l cs

namespace Safe

variable {c : Char} {cs : List Char}

theorem gap (h : Safe limit l cs) : Safe limit l (cs.drop (Word.gap cs)) := by
  obtain ⟨hdepth, ⟨p, hp⟩, hquiet⟩ := h
  obtain ⟨hquiet, p', heq⟩ := scan_gapFrom hdepth (Word.gapFrom_gap cs) .code hquiet p
  exact ⟨hdepth, ⟨p', heq ▸ hp⟩, hquiet⟩

/-- A character that starts no comment, no string and no `!=`. -/
theorem char (hc : Single c cs) (h : Safe limit l (c :: cs)) : Safe limit (l.step c) cs := by
  obtain ⟨-, ⟨p, hp⟩, hquiet⟩ := h
  rw [quiet_char hc] at hquiet
  rw [scan_char hc] at hp
  split at hp
  · cases hp
  · next hdepth => exact ⟨Nat.le_of_not_lt hdepth, ⟨_, hp⟩, hquiet⟩

theorem step (hc : c ≠ '/' ∧ c ≠ '!' ∧ c ≠ '"') (h : Safe limit l (c :: cs)) :
    Safe limit (l.step c) cs :=
  h.char (.of_ne hc)

theorem settle_le (h : Safe limit l cs) : l.settle.depth ≤ limit :=
  Nat.le_trans l.settle_depth_le h.depth_le

theorem notEqual (h : Safe limit l ('!' :: '=' :: cs)) : Safe limit l.settle cs := by
  obtain ⟨⟨p, hp⟩, hquiet⟩ := h.passes
  exact ⟨h.settle_le, ⟨_, hp⟩, hquiet⟩

theorem plain (hc : isPlain c) (h : Safe limit l (c :: cs)) : Safe limit l.settle cs := by
  rw [← step_of_isPlain hc]
  exact h.char (.of_isPlain hc cs)

/-- A word without signs and brackets settles the levels. -/
theorem word {word : List Char} (hword : word.all isPlain) (hne : word ≠ [])
    (h : Safe limit l (word ++ cs)) : Safe limit l.settle cs := by
  induction word generalizing l with
  | nil => exact absurd rfl hne
  | cons c word ih =>
    obtain ⟨hc, hword⟩ := Bool.and_eq_true_iff.mp hword
    have htail := h.plain hc
    cases word with
    | nil => exact htail
    | cons d word =>
      have hlast := ih hword (List.cons_ne_nil _ _) htail
      exact hlast

end Safe

/-- At the end of a text in quotes the scan is in code again, with the levels settled. -/
theorem scan_stringTail {cs : List Char} {n : Nat} (hn : Word.stringTail cs = some n)
    (hquiet : quiet .string cs) (p : Place) :
    quiet .code (cs.drop n) ∧
      ∃ p', scan limit .string l p cs = scan limit .code l.settle p' (cs.drop n) := by
  fun_induction Word.stringTail cs generalizing n p with
  | case1 cs =>
    cases hn
    exact ⟨hquiet, _, rfl⟩
  | case2 c cs ih =>
    obtain ⟨m, hm, rfl⟩ := Option.map_eq_some_iff.mp hn
    exact ih hm hquiet _
  | case3 => cases hn
  | case4 c cs hquote hescape hline ih =>
    obtain ⟨m, hm, rfl⟩ := Option.map_eq_some_iff.mp hn
    have hopen : ¬ (c = '"' ∨ c = '\n') := by
      rintro (rfl | rfl)
      · exact hquote rfl
      · exact hline rfl
    rw [quiet, if_neg hopen] at hquiet
    · rw [scan, if_neg hopen]
      · exact ih hm hquiet _
      · exact hescape
    · exact hescape
  | case5 => cases hn

/-- A text in quotes settles the levels. -/
theorem Safe.string {cs : List Char} {n : Nat} (hn : Word.stringTail cs = some n)
    (h : Safe limit l ('"' :: cs)) : Safe limit l.settle (cs.drop n) := by
  obtain ⟨⟨p, hp⟩, hquiet⟩ := h.passes
  obtain ⟨hquiet, p', heq⟩ := @scan_stringTail limit l cs n hn hquiet (p.next '"')
  exact ⟨h.settle_le, ⟨p', heq ▸ hp⟩, hquiet⟩

/-- Behind a binary operator the levels are settled, or they will be at the next
operand. To the scan a slash in front of another one or of a star is no operator. -/
theorem Safe.operator {op : BinaryOp} {cs : List Char}
    (hdiv : op = .div → cs.head? ≠ some '/' ∧ cs.head? ≠ some '*')
    (h : Safe limit l (op.text.toList ++ cs)) :
    ∃ m, m.settle = l.settle ∧ l.settle.depth ≤ m.depth ∧ Safe limit m cs := by
  cases op with
  | sub =>
    have hsub : Safe limit l.addPending cs := h.step (by decide)
    have hdepth := l.settle_depth_le
    exact ⟨l.addPending, l.settle_addPending, Nat.le_succ_of_le hdepth, hsub⟩
  | ne => exact ⟨l.settle, rfl, Nat.le_refl _, h.notEqual⟩
  | div =>
    have hslash : Safe limit l.settle cs :=
      h.char ⟨fun _ => hdiv rfl, fun heq => absurd heq (by decide), by decide⟩
    exact ⟨l.settle, rfl, Nat.le_refl _, hslash⟩
  | _ => exact ⟨l.settle, rfl, Nat.le_refl _, h.word rfl (List.cons_ne_nil _ _)⟩

end Nesting

end Cairn
