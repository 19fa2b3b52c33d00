import Cairn.Proofs.Digits
import Cairn.Proofs.Terminals

/-!
# Cairn — the words at the front of a text

A terminal at the front of a written text is followed by a blank or by nothing,
so that a word ends where its terminal does. This module says, for each kind of
word, at which terminals it stands and at which it does not. Mostly the first
character tells them apart.

## Main statements

* `Written.uncons` — the first terminal of a text, and the text behind it.
* `Word.gap_written` — no gap is in front of a written text.
* `Word.keyword_spells`, `Word.ident_spells`, … — the words that stand at a
  terminal.
-/

namespace Cairn

-- ---------------------------------------------------------------------------
-- Characters
-- ---------------------------------------------------------------------------

theorem isDigit_of_isAlpha {c : Char} (h : c.isAlpha) : c.isDigit = false := by
  refine Bool.eq_false_iff.mpr fun hdigit => ?_
  have hnine : c.toNat ≤ 57 := (Char.isDigit_iff_toNat.mp hdigit).2
  have hletter : (c.isUpper || c.isLower) = true := h
  rcases Bool.or_eq_true_iff.mp hletter with hupper | hlower
  · have : 65 ≤ c.toNat := UInt32.le_iff_toNat_le.mp (of_decide_eq_true hupper).1
    omega
  · have hlow := of_decide_eq_true (Bool.and_eq_true_iff.mp hlower).1
    have : 97 ≤ c.toNat := UInt32.le_iff_toNat_le.mp hlow
    omega

namespace Word

theorem isWordChar_of_isDigit {c : Char} (h : c.isDigit) : isWordChar c := by
  have : (c.isAlpha || c.isDigit || c == '_') = true := by simp [h]
  exact this

theorem isWordChar_of_isAlpha {c : Char} (h : c.isAlpha) : isWordChar c := by
  have : (c.isAlpha || c.isDigit || c == '_') = true := by simp [h]
  exact this

theorem isBlank_cases {c : Char} (h : isBlank c) : c = ' ' ∨ c = '\t' ∨ c = '\r' ∨ c = '\n' := by
  simpa [isBlank, or_assoc] using h

/-- Blanks are in no class of characters that a word is made of. -/
theorem not_of_isBlank {p : Char → Bool} (h : p ' ' = false ∧ p '\t' = false ∧ p '\r' = false ∧
    p '\n' = false) {c : Char} (hc : isBlank c) : p c = false := by
  obtain ⟨hspace, htab, hreturn, hline⟩ := h
  rcases isBlank_cases hc with rfl | rfl | rfl | rfl <;> assumption

-- ---------------------------------------------------------------------------
-- Gaps
-- ---------------------------------------------------------------------------

theorem gapFrom_blank {c : Char} (hc : isBlank c) {cs : List Char} {n : Nat}
    (h : gapFrom .blanks cs = some n) : gapFrom .blanks (c :: cs) = some (n + 1) := by
  have hslash : c ≠ '/' := by
    rintro rfl
    cases hc
  rw [gapFrom, if_pos hc, h]
  · rfl
  · intro _ heq
    exact absurd heq hslash
  · intro _ heq
    exact absurd heq hslash

theorem gapFrom_line {text : List Char} (htext : ∀ c ∈ text, isNewline c = false) {cs : List Char}
    {n : Nat} (h : gapFrom .blanks cs = some n) :
    gapFrom .lineComment (text ++ '\n' :: cs) = some (n + text.length + 1) := by
  induction text with
  | nil =>
    rw [List.nil_append, gapFrom, if_pos (by decide), h]
    rfl
  | cons c text ih =>
    obtain ⟨hc, htext⟩ := List.forall_mem_cons.mp htext
    rw [List.cons_append, gapFrom, hc, ih htext, if_neg (by decide)]
    rfl

theorem gapFrom_block {text : List Char} (htext : ¬ ['*', '/'] <:+: text) {cs : List Char}
    {n : Nat} (h : gapFrom .blanks cs = some n) :
    gapFrom .blockComment (text ++ '*' :: '/' :: cs) = some (n + text.length + 2) := by
  induction text with
  | nil =>
    rw [List.nil_append, gapFrom, h]
    rfl
  | cons c text ih =>
    -- The comment is not closed here: its text would hold what closes it.
    have hopen : ∀ rest, c = '*' → text ++ '*' :: '/' :: cs = '/' :: rest → False := by
      rintro rest rfl hrest
      cases text with
      | nil => cases hrest
      | cons d text =>
        cases hrest
        exact htext (List.prefix_append ['*', '/'] text).isInfix
    have hin : ¬ ['*', '/'] <:+: text := fun hin =>
      htext (hin.trans (List.suffix_cons c text).isInfix)
    rw [List.cons_append, gapFrom, ih hin]
    · simp only [Option.map_some, List.length_cons, Option.some.injEq]
      omega
    · exact hopen

/-- A gap is skipped as a whole, and what follows decides where it ends. -/
theorem gapFrom_append {gap cs : List Char} (hgap : Spacing gap) {n : Nat}
    (h : gapFrom .blanks cs = some n) : gapFrom .blanks (gap ++ cs) = some (n + gap.length) := by
  induction hgap with
  | nil => exact h
  | blank hc _ ih => exact gapFrom_blank hc ih
  | @line text rest htext _ ih =>
    have hline := gapFrom_line htext ih
    simp only [List.append_assoc, List.cons_append, gapFrom, hline, Option.map_some,
      List.length_append, List.length_cons, Option.some.injEq]
    omega
  | @block text rest htext _ ih =>
    have hblock := gapFrom_block htext ih
    simp only [List.append_assoc, List.cons_append, gapFrom, hblock, List.length_append,
      List.length_cons, Option.some.injEq]
    omega

/-- What starts with neither a blank nor a comment is no gap. -/
theorem gapFrom_eq_zero {c : Char} {cs : List Char} (hc : isBlank c = false)
    (hslash : c = '/' → cs.head? ≠ some '/' ∧ cs.head? ≠ some '*') :
    gapFrom .blanks (c :: cs) = some 0 := by
  rw [gapFrom, if_neg (by rw [hc]; decide)]
  · rintro rest rfl rfl
    exact (hslash rfl).1 rfl
  · rintro rest rfl rfl
    exact (hslash rfl).2 rfl

end Word

-- ---------------------------------------------------------------------------
-- The first character of a terminal
-- ---------------------------------------------------------------------------

/-- The first character of the mark. -/
def Mark.front (s : Mark) : Char :=
  s.text.toList.headD ' '

theorem Mark.text_eq (s : Mark) : ∃ cs, s.text.toList = s.front :: cs := by
  cases s with
  | unary op => cases op <;> exact ⟨_, rfl⟩
  | binary op => cases op <;> exact ⟨_, rfl⟩
  | _ => exact ⟨_, rfl⟩

theorem Keyword.text_eq (k : Keyword) : ∃ c cs, k.text.toList = c :: cs ∧ c.isAlpha := by
  cases k <;> exact ⟨_, _, rfl, rfl⟩

/-- A spelling of the terminal may start with the character. -/
def Terminal.Opens : Terminal → Char → Prop
  | .keyword _, c => c.isAlpha
  | .name _, c => c.isAlpha ∨ c = '_'
  | .literal (.int _), c => c.isDigit
  | .literal (.float _), c => c.isDigit
  | .literal (.bool _), c => c.isAlpha
  | .literal (.str _), c => c = '"'
  | .mark s, c => c = s.front

theorem IsDigits.cons {cs : List Char} (h : IsDigits cs) :
    ∃ c rest, cs = c :: rest ∧ c.isDigit := by
  obtain ⟨hne, hdigits⟩ := h
  obtain ⟨c, rest, rfl⟩ := List.exists_cons_of_ne_nil hne
  exact ⟨c, rest, rfl, hdigits c List.mem_cons_self⟩

theorem Terminal.Spells.opens {t : Terminal} {word : List Char} (h : t.Spells word) :
    ∃ c cs, word = c :: cs ∧ t.Opens c := by
  cases t with
  | keyword k =>
    obtain ⟨c, cs, hk, hc⟩ := k.text_eq
    exact ⟨c, cs, h.trans hk, hc⟩
  | name x =>
    obtain ⟨c, cs, hcs, hc⟩ := h.1.start
    exact ⟨c, cs, h.2.trans hcs, hc⟩
  | literal value =>
    cases value with
    | int i => exact h.1.cons
    | float x =>
      obtain ⟨whole, fraction, hwhole, -, hword, -⟩ := h
      obtain ⟨c, rest, rfl, hc⟩ := hwhole.cons
      exact ⟨c, rest ++ '.' :: fraction, hword, hc⟩
    | bool b => cases b <;> exact ⟨_, _, h, rfl⟩
    | str s =>
      refine ⟨'"', s.toList.flatMap quoteChar ++ ['"'], h.trans ?_, rfl⟩
      rw [quoted, String.toList_ofList]
      rfl
  | mark s =>
    obtain ⟨cs, hs⟩ := s.text_eq
    exact ⟨s.front, cs, h.trans hs, rfl⟩

/-- Letters, digits, underscores and quotes: what terminals other than marks start
with. -/
def Word.opensWord (c : Char) : Bool :=
  isWordChar c || c == '"'

theorem Mark.opensWord_front (s : Mark) : Word.opensWord s.front = false := by
  cases s with
  | unary op => cases op <;> rfl
  | binary op => cases op <;> rfl
  | _ => rfl

theorem Terminal.Opens.cases {t : Terminal} {c : Char} (h : t.Opens c) :
    Word.opensWord c ∨ ∃ s, t = .mark s ∧ c = s.front := by
  have hletter : c.isAlpha → Word.opensWord c := fun hc =>
    Bool.or_eq_true_iff.mpr (.inl (Word.isWordChar_of_isAlpha hc))
  have hdigit : c.isDigit → Word.opensWord c := fun hc =>
    Bool.or_eq_true_iff.mpr (.inl (Word.isWordChar_of_isDigit hc))
  cases t with
  | keyword _ => exact .inl (hletter h)
  | name _ =>
    rcases h with hc | rfl
    · exact .inl (hletter hc)
    · exact .inl (by decide)
  | literal value =>
    cases value with
    | int _ => exact .inl (hdigit h)
    | float _ => exact .inl (hdigit h)
    | bool _ => exact .inl (hletter h)
    | str _ =>
      cases h
      exact .inl (by decide)
  | mark s => exact .inr ⟨s, rfl, h⟩

theorem Terminal.Opens.not_blank {t : Terminal} {c : Char} (h : t.Opens c) :
    Word.isBlank c = false := by
  rcases h.cases with hc | ⟨s, -, rfl⟩
  · refine Bool.eq_false_iff.mpr fun hblank => ?_
    rw [@Word.not_of_isBlank Word.opensWord (by decide) c hblank] at hc
    cases hc
  · cases s with
    | unary op => cases op <;> rfl
    | binary op => cases op <;> rfl
    | _ => rfl

/-- What starts like a mark is a mark. -/
theorem Terminal.Opens.eq_mark {t : Terminal} {s : Mark} (h : t.Opens s.front) :
    ∃ s', t = .mark s' ∧ s.front = s'.front := by
  rcases h.cases with hc | hs
  · rw [s.opensWord_front] at hc
    cases hc
  · exact hs

-- ---------------------------------------------------------------------------
-- Written texts
-- ---------------------------------------------------------------------------

/-- The text is empty or starts with a blank. -/
def WordEnd (tail : List Char) : Prop :=
  ∀ c, tail.head? = some c → Word.isBlank c

theorem WordEnd.head?_ne {tail : List Char} (h : WordEnd tail) {c : Char}
    (hc : Word.isBlank c = false) : tail.head? ≠ some c := by
  intro heq
  rw [h c heq] at hc
  cases hc

theorem WordEnd.isDigit_head? {tail : List Char} (h : WordEnd tail) :
    ∀ c, tail.head? = some c → c.isDigit = false :=
  fun c hc => Word.not_of_isBlank (by decide) (h c hc)

/-- No gap stands in front of a terminal. -/
theorem Word.gapFrom_spells {t : Terminal} {word tail : List Char} (h : t.Spells word)
    (htail : WordEnd tail) : gapFrom .blanks (word ++ tail) = some 0 := by
  obtain ⟨c, cs, rfl, hc⟩ := h.opens
  refine gapFrom_eq_zero hc.not_blank ?_
  rintro rfl
  -- Only division starts with a slash, and it is nothing but the slash.
  obtain ⟨s, rfl, hs⟩ := @Terminal.Opens.eq_mark t (.binary .div) hc
  have hdiv : s = .binary .div := by
    cases s with
    | unary op => cases op <;> cases hs
    | binary op => cases op <;> first | rfl | cases hs
    | _ => cases hs
  subst hdiv
  cases h
  exact ⟨htail.head?_ne (by decide), htail.head?_ne (by decide)⟩

theorem Separator.wordEnd {gap : List Char} (h : Separator gap) (rest : List Char) :
    WordEnd (gap ++ rest) := by
  obtain ⟨c, cs, rfl, hc, -⟩ := h
  intro d hd
  cases hd
  exact hc

theorem Separator.gap {gap : List Char} (h : Separator gap) : Spacing gap := by
  obtain ⟨c, cs, rfl, hc, hcs⟩ := h
  exact .blank hc hcs

theorem Word.gap_written {ts : List Terminal} {cs : List Char} (h : Written ts cs) :
    gapFrom .blanks cs = some 0 := by
  cases h with
  | nil => rfl
  | one hword =>
    rw [← List.append_nil cs]
    exact gapFrom_spells hword nofun
  | cons hword hgap _ => exact gapFrom_spells hword (hgap.wordEnd _)

/-- **The first terminal of a text**, and the text behind the gap that follows
it. -/
theorem Written.uncons {t : Terminal} {ts : List Terminal} {cs : List Char}
    (h : Written (t :: ts) cs) :
    ∃ word tail, t.Spells word ∧ cs = word ++ tail ∧ WordEnd tail ∧
      Written ts (tail.drop (Word.gap tail)) := by
  cases h with
  | one hword => exact ⟨cs, [], hword, (List.append_nil cs).symm, nofun, .nil⟩
  | @cons _ u us word gap rest hword hgap hrest =>
    refine ⟨word, gap ++ rest, hword, rfl, hgap.wordEnd rest, ?_⟩
    have hlength := Word.gapFrom_append hgap.gap (Word.gap_written hrest)
    rw [Nat.zero_add] at hlength
    rw [Word.gap, hlength, Option.getD_some, List.drop_left]
    exact hrest

theorem Written.length_le {ts : List Terminal} {cs : List Char} (h : Written ts cs) :
    ts.length ≤ cs.length := by
  induction h with
  | nil => exact Nat.le_refl 0
  | one hword =>
    obtain ⟨c, rest, rfl, -⟩ := hword.opens
    simp
  | cons hword _ _ ih =>
    obtain ⟨c, rest, rfl, -⟩ := hword.opens
    simp only [List.length_append, List.length_cons] at ih ⊢
    omega

-- ---------------------------------------------------------------------------
-- Reserved words and names
-- ---------------------------------------------------------------------------

/-- The reserved word that the terminal is spelled as. -/
def Terminal.keyword? : Terminal → Option Keyword
  | .keyword k => some k
  | .literal (.bool true) => some .true
  | .literal (.bool false) => some .false
  | _ => none

/-- The reserved word with the given text. -/
def Keyword.ofText? (text : String) : Option Keyword :=
  Keyword.all.find? fun k => k.text = text

theorem Keyword.ofText?_text (k : Keyword) : Keyword.ofText? k.text = some k := by
  cases k <;> rfl

theorem Keyword.text_inj {k k' : Keyword} (h : k.text.toList = k'.text.toList) : k = k' := by
  have hof := congrArg Keyword.ofText? (String.toList_inj.mp h)
  rw [k.ofText?_text, k'.ofText?_text] at hof
  exact Option.some.inj hof

theorem Keyword.mem_all (k : Keyword) : k ∈ Keyword.all := by
  cases k <;> decide

theorem Keyword.isWordChar_text (k : Keyword) : ∀ c ∈ k.text.toList, Word.isWordChar c := by
  cases k <;> exact List.all_eq_true.mp rfl

theorem IsIdentifier.isWordChar {x : String} (h : IsIdentifier x) :
    ∀ c ∈ x.toList, Word.isWordChar c := by
  intro c hc
  simpa [Word.isWordChar] using h.chars c hc

theorem Terminal.spells_of_keyword? {t : Terminal} {k : Keyword} (h : t.keyword? = some k)
    {word : List Char} (hword : t.Spells word) : word = k.text.toList := by
  unfold Terminal.keyword? at h
  split at h <;> cases h <;> exact hword

namespace Word

variable {t : Terminal} {word tail : List Char}

/-- A run of characters of one class ends where the terminal does. -/
theorem takeWhile_wordEnd {p : Char → Bool} (htail : WordEnd tail)
    (hblank : p ' ' = false ∧ p '\t' = false ∧ p '\r' = false ∧ p '\n' = false)
    (hword : ∀ c ∈ word, p c) : (word ++ tail).takeWhile p = word := by
  rw [List.takeWhile_append_of_pos hword]
  cases tail with
  | nil => simp
  | cons c rest => simp [not_of_isBlank hblank (htail c rfl)]

theorem takeWhile_word (htail : WordEnd tail) (hword : ∀ c ∈ word, isWordChar c) :
    (word ++ tail).takeWhile isWordChar = word :=
  takeWhile_wordEnd htail (by decide) hword

theorem keyword_spells {k : Keyword} (h : t.keyword? = some k) (hword : t.Spells word)
    (htail : WordEnd tail) : keyword k (word ++ tail) = some word.length := by
  obtain rfl := Terminal.spells_of_keyword? h hword
  have htake := takeWhile_word htail k.isWordChar_text
  simp only [keyword, htake, if_true]

/-- What does not start with a letter is no reserved word. -/
theorem takeWhile_ne_keyword {c : Char} (hc : c.isAlpha = false) (cs : List Char) (k : Keyword) :
    (c :: cs).takeWhile isWordChar ≠ k.text.toList := by
  obtain ⟨d, ds, hk, hd⟩ := k.text_eq
  rw [hk, List.takeWhile_cons]
  split
  · intro heq
    rw [(List.cons.inj heq).1, hd] at hc
    cases hc
  · nofun

theorem isAlpha_of_isDigit {c : Char} (h : c.isDigit) : c.isAlpha = false := by
  refine Bool.eq_false_iff.mpr fun hc => ?_
  rw [isDigit_of_isAlpha hc] at h
  cases h

theorem isWordChar_front (s : Mark) : isWordChar s.front = false :=
  (Bool.or_eq_false_iff.mp s.opensWord_front).1

theorem isAlpha_front (s : Mark) : s.front.isAlpha = false := by
  refine Bool.eq_false_iff.mpr fun hc => ?_
  have hfront := isWordChar_of_isAlpha hc
  rw [isWordChar_front] at hfront
  cases hfront

theorem keyword_eq_none {k : Keyword} (h : t.keyword? ≠ some k) (hword : t.Spells word)
    (htail : WordEnd tail) : keyword k (word ++ tail) = none := by
  refine if_neg ?_
  cases hk : t.keyword? with
  | some k' =>
    obtain rfl := Terminal.spells_of_keyword? hk hword
    rw [takeWhile_word htail k'.isWordChar_text]
    exact fun heq => h (hk.trans (congrArg some (Keyword.text_inj heq)))
  | none =>
    obtain ⟨c, cs, hcs, hopens⟩ := hword.opens
    cases t with
    | keyword k' => cases hk
    | name x =>
      obtain ⟨hx, rfl⟩ := hword
      rw [takeWhile_word htail hx.isWordChar]
      exact fun heq => hx.free k (String.toList_inj.mp heq).symm
    | literal value =>
      rw [hcs]
      cases value with
      | int i => exact takeWhile_ne_keyword (isAlpha_of_isDigit hopens) _ k
      | float x => exact takeWhile_ne_keyword (isAlpha_of_isDigit hopens) _ k
      | bool b => cases b <;> cases hk
      | str s =>
        cases hopens
        exact takeWhile_ne_keyword (by decide) _ k
    | mark s =>
      rw [hcs, hopens]
      exact takeWhile_ne_keyword (isAlpha_front s) _ k

theorem ident_spells {x : String} (hx : IsIdentifier x) (htail : WordEnd tail) :
    ident (x.toList ++ tail) = some x.toList.length := by
  obtain ⟨c, cs, hcs, hc⟩ := hx.start
  have htake := takeWhile_word htail hx.isWordChar
  have hdigit : c.isDigit = false := by
    rcases hc with hc | rfl
    · exact isDigit_of_isAlpha hc
    · decide
  have hfree : Keyword.all.any (fun k => k.text.toList = c :: cs) = false := by
    refine List.any_eq_false.mpr fun k _ hk => hx.free k (String.toList_inj.mp ?_)
    rw [hcs]
    exact of_decide_eq_true hk
  rw [hcs] at htake ⊢
  simp only [ident, htake, hdigit, hfree, Bool.or_self, Bool.false_eq_true, if_false]

/-- Words that start with a digit and reserved words are no names. -/
theorem ident_of_takeWhile {cs : List Char}
    (h : ∀ c, (cs.takeWhile isWordChar).head? = some c →
      c.isDigit ∨ ∃ k : Keyword, k.text.toList = cs.takeWhile isWordChar) : ident cs = none := by
  unfold ident
  dsimp only
  split
  · rfl
  · next c rest hword =>
    refine if_pos (Bool.or_eq_true_iff.mpr ?_)
    rcases h c (by rw [hword]; rfl) with hc | ⟨k, hk⟩
    · exact .inl hc
    · exact .inr (List.any_eq_true.mpr ⟨k, k.mem_all, decide_eq_true hk⟩)

theorem ident_of_front {c : Char} {cs : List Char} (h : c.isDigit ∨ isWordChar c = false) :
    ident (c :: cs) = none := by
  refine ident_of_takeWhile fun d hd => .inl ?_
  rw [List.takeWhile_cons] at hd
  rcases h with hc | hc
  · rw [if_pos (isWordChar_of_isDigit hc)] at hd
    cases hd
    exact hc
  · rw [hc] at hd
    cases hd

theorem ident_eq_none (h : ∀ x, t ≠ .name x) (hword : t.Spells word) (htail : WordEnd tail) :
    ident (word ++ tail) = none := by
  cases hk : t.keyword? with
  | some k =>
    obtain rfl := Terminal.spells_of_keyword? hk hword
    exact ident_of_takeWhile fun _ _ => .inr ⟨k, (takeWhile_word htail k.isWordChar_text).symm⟩
  | none =>
    obtain ⟨c, cs, rfl, hopens⟩ := hword.opens
    cases t with
    | keyword k' => cases hk
    | name x => exact absurd rfl (h x)
    | literal value =>
      cases value with
      | int i => exact ident_of_front (.inl hopens)
      | float x => exact ident_of_front (.inl hopens)
      | bool b => cases b <;> cases hk
      | str s =>
        cases hopens
        exact ident_of_front (.inr rfl)
    | mark s =>
      cases hopens
      exact ident_of_front (.inr (isWordChar_front s))

-- ---------------------------------------------------------------------------
-- Marks
-- ---------------------------------------------------------------------------

theorem symbol_spells (s : Mark) (tail : List Char) :
    symbol s.text (s.text.toList ++ tail) = some s.text.toList.length := by
  refine if_pos ?_
  rw [List.isPrefixOf_iff_prefix]
  exact List.prefix_append _ _

theorem symbol_of_front {s : Mark} {c : Char} (h : c ≠ s.front) (cs : List Char) :
    symbol s.text (c :: cs) = none := by
  obtain ⟨rest, hs⟩ := s.text_eq
  refine if_neg fun hprefix => ?_
  rw [List.isPrefixOf_iff_prefix, hs] at hprefix
  exact h (List.cons_prefix_cons.mp hprefix).1.symm

theorem unaryOp_spells (op : UnaryOp) (htail : WordEnd tail) :
    unaryOp op (op.text.toList ++ tail) = some op.text.toList.length := by
  cases op with
  | neg => rfl
  | not => exact if_neg (htail.head?_ne (by decide))

theorem unaryOp_of_front {op : UnaryOp} {c : Char} (h : c ≠ (Mark.unary op).front)
    (cs : List Char) : unaryOp op (c :: cs) = none := by
  unfold unaryOp
  split
  · next heq => exact absurd (List.cons.inj heq).1 h
  · next heq => exact absurd (List.cons.inj heq).1 h
  · rfl

theorem assignOp_spells (htail : WordEnd tail) : assignOp ('=' :: tail) = some 1 :=
  if_neg (htail.head?_ne (by decide))

/-- The first half of `==` is no mark of its own. -/
theorem assignOp_eq_none (h : t ≠ .mark .assign) (hword : t.Spells word) :
    assignOp (word ++ tail) = none := by
  obtain ⟨c, cs, rfl, hopens⟩ := hword.opens
  by_cases hc : c = '='
  · subst hc
    obtain ⟨s, rfl, hs⟩ := @Terminal.Opens.eq_mark t .assign hopens
    have heq : s = .binary .eq := by
      cases s with
      | assign => exact absurd rfl h
      | unary op => cases op <;> cases hs
      | binary op => cases op <;> first | rfl | cases hs
      | _ => cases hs
    subst heq
    cases hword
    rfl
  · unfold assignOp
    split
    · next heq => exact absurd (List.cons.inj heq).1 hc
    · rfl

-- ---------------------------------------------------------------------------
-- Literals
-- ---------------------------------------------------------------------------

theorem int_spells (h : IsDigits word) (htail : ∀ c, tail.head? = some c → c.isDigit = false) :
    int (word ++ tail) = some word.length := by
  have htake : (word ++ tail).takeWhile Char.isDigit = word := by
    rw [List.takeWhile_append_of_pos h.2]
    cases tail with
    | nil => simp
    | cons c rest => simp [htail c rfl]
  simp [int, htake, h.1]

theorem int_of_front {c : Char} (h : c.isDigit = false) (cs : List Char) :
    int (c :: cs) = none := by
  simp [int, h]

theorem float_spells {whole fraction : List Char} (hwhole : IsDigits whole)
    (hfraction : IsDigits fraction) (htail : WordEnd tail) :
    float ((whole ++ '.' :: fraction) ++ tail) = some (whole ++ '.' :: fraction).length := by
  have hint : int (whole ++ '.' :: (fraction ++ tail)) = some whole.length :=
    int_spells hwhole (by simp)
  have htail := int_spells hfraction htail.isDigit_head?
  rw [List.append_assoc, List.cons_append]
  simp only [float, hint, List.drop_left, htail, Option.map_some, List.length_append,
    List.length_cons, Option.some.injEq]
  omega

theorem float_of_int (h : IsDigits word) (htail : WordEnd tail) : float (word ++ tail) = none := by
  simp only [float, int_spells h htail.isDigit_head?, List.drop_left]
  split
  · next rest => exact absurd rfl (htail.head?_ne (by decide))
  · rfl

theorem float_of_front {c : Char} (h : c.isDigit = false) (cs : List Char) :
    float (c :: cs) = none := by
  simp [float, int_of_front h]

theorem string_of_front {c : Char} (h : c ≠ '"') (cs : List Char) : string (c :: cs) = none := by
  unfold string
  split
  · next heq => exact absurd (List.cons.inj heq).1 h
  · rfl

/-- A character of a text in quotes takes the literal along and leaves what
follows. -/
theorem stringTail_quoteChar (c : Char) {cs : List Char} {n : Nat} (h : stringTail cs = some n) :
    stringTail (quoteChar c ++ cs) = some (n + (quoteChar c).length) := by
  rw [quoteChar]
  repeat' split
  case isFalse hquote hslash hline hreturn _ =>
    have hnewline : isNewline c = false := by simp [isNewline, hline, hreturn]
    rw [List.singleton_append, stringTail, hnewline, h, if_neg (by decide)]
    · rfl
    · exact fun heq => hquote heq
    · exact fun _ _ heq => absurd heq hslash
  all_goals
    simp only [List.cons_append, List.nil_append, stringTail, h]
    rfl

theorem unescape_quoteChar (c : Char) (cs : List Char) :
    unescape (quoteChar c ++ cs) = c :: unescape cs := by
  rw [quoteChar]
  repeat' split
  case isFalse hquote hslash _ _ _ =>
    rw [List.singleton_append, unescape]
    all_goals
      intros
      contradiction
  all_goals
    subst_vars
    rfl

theorem string_spells (s : String) (tail : List Char) :
    string ((quoted s).toList ++ tail) = some (quoted s).toList.length := by
  have htail : ∀ cs : List Char, stringTail (cs.flatMap quoteChar ++ '"' :: tail) =
      some ((cs.flatMap quoteChar).length + 1) := by
    intro cs
    induction cs with
    | nil => rfl
    | cons c cs ih =>
      rw [List.flatMap_cons, List.append_assoc, stringTail_quoteChar c ih, List.length_append]
      congr 1
      omega
  rw [quoted, String.toList_ofList]
  simp [string, htail]

theorem unescape_quoted (s : String) :
    String.ofList (unescape ((quoted s).toList.drop 1).dropLast) = s := by
  have hinside : ∀ cs : List Char, unescape (cs.flatMap quoteChar) = cs := by
    intro cs
    induction cs with
    | nil => rfl
    | cons c cs ih => rw [List.flatMap_cons, unescape_quoteChar, ih]
  rw [quoted, String.toList_ofList]
  simp [hinside]

end Word

end Cairn
