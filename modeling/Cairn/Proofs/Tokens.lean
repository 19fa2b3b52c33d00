import Cairn.Proofs.Grouping
import Cairn.Proofs.Order
import Cairn.Proofs.Words

/-!
# Cairn — the tokens of a source

A text falls into tokens before anything is known of what they mean: gaps are
skipped, and what stands behind a gap is a literal, a word or a mark, each as long
as it can be. The grammar works without this step, on the characters themselves.
Still, the tree that it builds, read from left to right, is the sequence of the
tokens of its source: no token is dropped, added, split or moved.

Tokens carry the values of literals and not their spelling. A minus sign is one
token, whether it is read as an operator of one operand or of two.

## Main definitions

* `Token`, `Word.token?` — tokens, and the one at the front of a text.
* `tokens` — the tokens of a text.
* `Lexes`, `Fills` — the tokens between two cursors.

## Main statements

* `Stmt.Covers.fills` — a tree and the tokens of the text that it covers.
* `Program.grouped_in_token_order` — the trees of parsed programs.
-/

namespace Cairn

-- ---------------------------------------------------------------------------
-- Tokens
-- ---------------------------------------------------------------------------

/-- What a text is made of. -/
inductive Token where
  | keyword (k : Keyword)
  | name (x : String)
  | literal (value : Literal)
  | mark (text : String)
deriving DecidableEq

/-- The token that the terminal is, whichever operator a mark stands for. -/
def Terminal.token : Terminal → Token
  | .keyword k => .keyword k
  | .name x => .name x
  | .literal value => .literal value
  | .mark s => .mark s.text

/-- Marks of two characters come first. -/
def Mark.texts : List String :=
  ["||", "&&", "==", "!=", "(", ")", "\x7b", "\x7d", ";", ",", "?", ":", "=", "!", "<", ">", "+",
    "-", ".", "*", "/", "%"]

/-- With an equals sign behind it, the mark is the start of a longer one. -/
def Mark.startsLonger : Mark → Bool
  | .assign => true
  | .unary .not => true
  | _ => false

/-- The token that a word is. -/
def Token.ofWord (word : String) : Token :=
  match Keyword.ofText? word with
  | some .true => .literal (.bool true)
  | some .false => .literal (.bool false)
  | some k => .keyword k
  | none => .name word

namespace Word

/-- The number or the text in quotes at the front of a text, and its length. -/
def lexeme? (cs : List Char) : Option (Lexeme × Nat) :=
  ((float cs).map fun n => (.float (String.ofList (cs.take n)), n)).or <|
    ((int cs).map fun n => (.int (String.ofList (cs.take n)), n)).or <|
    (string cs).map fun n => (.str (String.ofList (unescape ((cs.take n).drop 1).dropLast)), n)

/-- The word at the front of a text, and its length. -/
def word? (cs : List Char) : Option (Token × Nat) :=
  let word := cs.takeWhile isWordChar
  if word.isEmpty then none else some (.ofWord (String.ofList word), word.length)

/-- The mark at the front of a text, and its length. -/
def mark? (cs : List Char) : Option (Token × Nat) :=
  (Mark.texts.find? fun text => text.toList.isPrefixOf cs).map fun text =>
    (.mark text, text.toList.length)

/-- The token at the front of a text, and its length. Numbers have a value. -/
def token? (cs : List Char) : Option (Token × Nat) :=
  match lexeme? cs with
  | some (lexeme, n) => lexeme.read?.map fun value => (.literal value, n)
  | none => (word? cs).or (mark? cs)

end Word

/-- Fewer than `n` tokens, which are all there are, each behind a gap. -/
def tokensBelow : Nat → List Char → Option (List Token)
  | 0, _ => none
  | n + 1, cs =>
    let rest := cs.drop (Word.gap cs)
    if rest.isEmpty then some []
    else (Word.token? rest).bind fun r => (tokensBelow n (rest.drop r.2)).map (r.1 :: ·)

/-- The tokens of a text. Each takes up at least one character, so the length of
the text bounds their number. -/
def tokens (source : List Char) : Option (List Token) :=
  tokensBelow (source.length + 1) source

-- ---------------------------------------------------------------------------
-- The token at the front of a text
-- ---------------------------------------------------------------------------

namespace Word

variable {cs : List Char} {n : Nat}

theorem lexeme?_of_front {c : Char} (hdigit : c.isDigit = false) (hquote : c ≠ '"')
    (cs : List Char) : lexeme? (c :: cs) = none := by
  rw [lexeme?, float_of_front hdigit, int_of_front hdigit, string_of_front hquote]
  rfl

theorem token?_of_word {c : Char} {rest : List Char} (hword : cs.takeWhile isWordChar = c :: rest)
    (hdigit : c.isDigit = false) :
    token? cs = some (.ofWord (String.ofList (cs.takeWhile isWordChar)),
      (cs.takeWhile isWordChar).length) := by
  cases cs with
  | nil => cases hword
  | cons d cs =>
    have hd : isWordChar d ∧ d = c := by
      rw [List.takeWhile_cons] at hword
      split at hword
      · next hd => exact ⟨hd, (List.cons.inj hword).1⟩
      · cases hword
    obtain ⟨hd, rfl⟩ := hd
    have hquote : d ≠ '"' := by
      rintro rfl
      cases hd
    rw [token?, lexeme?_of_front hdigit hquote, word?, hword]
    rfl

/-- No mark comes first that the text starts with as well. -/
theorem find?_texts (s : Mark) {tail : List Char} (h : s.startsLonger → tail.head? ≠ some '=') :
    Mark.texts.find? (fun t => t.toList.isPrefixOf (s.text.toList ++ tail)) = some s.text := by
  have hequals : ∀ text : String, text = "=" ∨ text = "!" → tail.head? ≠ some '=' →
      Mark.texts.find? (fun t => t.toList.isPrefixOf (text.toList ++ tail)) = some text := by
    rintro text (rfl | rfl) hne
    all_goals
      cases tail with
      | nil => rfl
      | cons c rest =>
        have hc : ('=' == c) = false := by
          refine beq_eq_false_iff_ne.mpr ?_
          rintro rfl
          exact hne rfl
        simp [Mark.texts, List.isPrefixOf_cons_cons, hc]
  cases s with
  | assign => exact hequals _ (.inl rfl) (h rfl)
  | unary op =>
    cases op with
    | neg => rfl
    | not => exact hequals _ (.inr rfl) (h rfl)
  | binary op => cases op <;> rfl
  | _ => rfl

theorem token?_of_mark (s : Mark) {tail : List Char}
    (h : s.startsLonger → tail.head? ≠ some '=') :
    token? (s.text.toList ++ tail) = some (.mark s.text, s.text.toList.length) := by
  obtain ⟨rest, htext⟩ := s.text_eq
  obtain ⟨hchar, hquote⟩ := Bool.or_eq_false_iff.mp s.opensWord_front
  have hdigit : s.front.isDigit = false := by
    refine Bool.eq_false_iff.mpr fun hd => ?_
    rw [isWordChar_of_isDigit hd] at hchar
    cases hchar
  have hlexeme : lexeme? (s.text.toList ++ tail) = none := by
    rw [htext]
    exact lexeme?_of_front hdigit (by simpa using hquote) _
  have hword : word? (s.text.toList ++ tail) = none := by
    rw [htext, word?, List.cons_append, List.takeWhile_cons, hchar]
    rfl
  rw [token?, hlexeme, hword, mark?, find?_texts s h]
  rfl

theorem token?_of_keyword {k : Keyword} (h : keyword k cs = some n) :
    token? cs = some (.ofWord k.text, n) := by
  simp only [keyword, Option.ite_none_right_eq_some, Option.some.injEq] at h
  obtain ⟨hword, rfl⟩ := h
  obtain ⟨c, rest, htext, hc⟩ := k.text_eq
  rw [token?_of_word (hword.trans htext) (isDigit_of_isAlpha hc), hword, String.ofList_toList]

theorem token?_of_ident (h : ident cs = some n) :
    token? cs = some (.name (String.ofList (cs.take n)), n) := by
  unfold ident at h
  dsimp only at h
  split at h
  · cases h
  · next c rest hword =>
    split at h
    · cases h
    · next hfree =>
      cases h
      obtain ⟨hdigit, hfree⟩ := not_or.mp (mt Bool.or_eq_true_iff.mpr hfree)
      have hkeyword : Keyword.ofText? (String.ofList (cs.takeWhile isWordChar)) = none := by
        refine List.find?_eq_none.mpr fun k hk htext => hfree (List.any_eq_true.mpr ⟨k, hk, ?_⟩)
        have htext : k.text = String.ofList (cs.takeWhile isWordChar) := of_decide_eq_true htext
        rw [htext, String.toList_ofList]
        exact decide_eq_true rfl
      rw [token?_of_word hword (Bool.eq_false_iff.mpr hdigit), take_takeWhile, Token.ofWord,
        hkeyword]

theorem take_ne_nil_of_lexeme? {lexeme : Lexeme} (h : lexeme? cs = some (lexeme, n)) :
    cs.take n ≠ [] := by
  rcases Option.or_eq_some_iff.mp h with h | ⟨-, h⟩
  · obtain ⟨m, hm, heq⟩ := Option.map_eq_some_iff.mp h
    cases heq
    exact (plain_float cs n hm).1
  rcases Option.or_eq_some_iff.mp h with h | ⟨-, h⟩
  · obtain ⟨m, hm, heq⟩ := Option.map_eq_some_iff.mp h
    cases heq
    exact (plain_int cs n hm).1
  · obtain ⟨m, hm, heq⟩ := Option.map_eq_some_iff.mp h
    cases heq
    obtain ⟨rest, _, rfl, -, rfl⟩ := string_eq_some hm
    exact List.cons_ne_nil _ _

theorem take_ne_nil_of_token? {t : Token} (h : token? cs = some (t, n)) : cs.take n ≠ [] := by
  unfold token? at h
  split at h
  · next lexeme m hlexeme =>
    obtain ⟨value, -, heq⟩ := Option.map_eq_some_iff.mp h
    cases heq
    exact take_ne_nil_of_lexeme? hlexeme
  · rcases Option.or_eq_some_iff.mp h with h | ⟨-, h⟩
    · simp only [word?, Option.ite_none_left_eq_some, Option.some.injEq] at h
      obtain ⟨hne, heq⟩ := h
      cases heq
      rw [take_takeWhile]
      exact fun hnil => hne (by rw [hnil]; rfl)
    · obtain ⟨text, hfind, heq⟩ := Option.map_eq_some_iff.mp h
      cases heq
      have hfront := List.find?_some hfind
      rw [← List.prefix_iff_eq_take.mp (List.isPrefixOf_iff_prefix.mp hfront)]
      have htexts : ∀ text ∈ Mark.texts, text.toList ≠ [] := by decide
      exact htexts text (List.mem_of_find?_eq_some hfind)

end Word

-- ---------------------------------------------------------------------------
-- Between two cursors
-- ---------------------------------------------------------------------------

theorem tokensBelow_succ (n : Nat) (c : Cursor) :
    tokensBelow (n + 1) c.rest =
      if c.skipGap.rest.isEmpty then some []
      else (Word.token? c.skipGap.rest).bind fun r =>
        (tokensBelow n (c.skipGap.rest.drop r.2)).map (r.1 :: ·) := rfl

/-- The terminals are, one behind the other, the tokens between the two cursors,
up to gaps. -/
def Lexes : List Terminal → Cursor → Cursor → Prop
  | [], c, d => c.skipGap = d.skipGap
  | t :: ts, c, d =>
    ∃ n, Word.token? c.skipGap.rest = some (t.token, n) ∧ Lexes ts (c.skipGap.advance n) d

namespace Lexes

variable {ts us : List Terminal} {c c' d e : Cursor}

theorem congr (h : Lexes ts c d) (hc : c.skipGap = c'.skipGap) : Lexes ts c' d := by
  cases ts with
  | nil => exact hc.symm.trans h
  | cons t ts =>
    rw [Lexes, ← hc]
    exact h

theorem skipGap (h : Lexes ts c d) : Lexes ts c d.skipGap := by
  induction ts generalizing c with
  | nil => exact Eq.trans h d.skipGap_skipGap.symm
  | cons t ts ih =>
    obtain ⟨n, ht, hts⟩ := h
    exact ⟨n, ht, ih hts⟩

theorem append (h : Lexes ts c d) (h' : Lexes us d.skipGap e) : Lexes (ts ++ us) c e := by
  induction ts generalizing c with
  | nil =>
    have hgap : c.skipGap = d.skipGap := h
    exact h'.congr (by rw [hgap, d.skipGap_skipGap])
  | cons t ts ih =>
    obtain ⟨n, ht, hts⟩ := h
    exact ⟨n, ht, ih hts⟩

/-- The number of tokens is bounded by the text. -/
theorem length_le (h : Lexes ts c d) : ts.length ≤ c.rest.length := by
  induction ts generalizing c with
  | nil => exact Nat.zero_le _
  | cons t ts ih =>
    obtain ⟨n, ht, hts⟩ := h
    have hne := Word.take_ne_nil_of_token? ht
    have hgap := c.length_skipGap_le
    have hrest := ih hts
    rw [Cursor.rest_advance, List.length_drop] at hrest
    rw [ne_eq, List.take_eq_nil_iff, not_or] at hne
    have hlength := List.length_pos_iff.mpr hne.2
    rw [List.length_cons]
    omega

/-- The tokens up to the end of the text are all of them. -/
theorem tokensBelow_eq (h : Lexes ts c d) (hd : d.skipGap.rest = []) {n : Nat}
    (hn : ts.length < n) : tokensBelow n c.rest = some (ts.map Terminal.token) := by
  induction ts generalizing c n with
  | nil =>
    obtain ⟨n, rfl⟩ := Nat.exists_eq_add_one_of_ne_zero (Nat.ne_zero_of_lt hn)
    have hgap : c.skipGap = d.skipGap := h
    have hrest : c.rest.drop (Word.gap c.rest) = [] := (congrArg Cursor.rest hgap).trans hd
    rw [tokensBelow, hrest]
    rfl
  | cons t ts ih =>
    obtain ⟨n, rfl⟩ := Nat.exists_eq_add_one_of_ne_zero (Nat.ne_zero_of_lt hn)
    obtain ⟨k, ht, hts⟩ := h
    have hne : c.skipGap.rest.isEmpty = false := by
      refine Bool.eq_false_iff.mpr fun hempty => Word.take_ne_nil_of_token? ht ?_
      rw [List.isEmpty_iff.mp hempty, List.take_nil]
    have hrest : tokensBelow n (c.skipGap.rest.drop k) = some (ts.map Terminal.token) :=
      ih hts (Nat.lt_of_succ_lt_succ hn)
    rw [tokensBelow_succ, hne, ht, if_neg Bool.false_ne_true, Option.bind_some, hrest]
    rfl

end Lexes

/-- The terminals are the tokens of the stretch between the two cursors, which ends
right behind the last of them or, if it is `loose`, behind the gap that follows. -/
def Fills (ts : List Terminal) (loose : Prop) (c d : Cursor) : Prop :=
  ∃ us t c' n, ts = us ++ [t] ∧ Lexes us c c' ∧
    Word.token? c'.skipGap.rest = some (t.token, n) ∧
    (¬loose → d = c'.skipGap.advance n) ∧ (loose → d = (c'.skipGap.advance n).skipGap)

/-- What ends with the last of the later tokens ends with the last of all. -/
theorem Lexes.fills {ts us : List Terminal} {loose : Prop} {c d e : Cursor} (h : Lexes ts c d)
    (h' : Fills us loose d.skipGap e) : Fills (ts ++ us) loose c e := by
  obtain ⟨vs, t, c', n, rfl, hvs, hlast⟩ := h'
  exact ⟨ts ++ vs, t, c', n, (List.append_assoc ..).symm, h.append hvs, hlast⟩

namespace Fills

variable {ts us : List Terminal} {loose loose' : Prop} {c d e : Cursor}

theorem one {t : Terminal} {n : Nat} (hc : c.Ready) (h : Word.token? c.rest = some (t.token, n)) :
    Fills [t] False c (c.advance n) := by
  refine ⟨[], t, c, n, rfl, rfl, ?_, fun _ => ?_, False.elim⟩
  · rw [hc.skipGap_eq]
    exact h
  · rw [hc.skipGap_eq]

theorem lexes (h : Fills ts loose c d) : Lexes ts c d := by
  obtain ⟨us, t, c', n, rfl, hus, ht, htight, hloose⟩ := h
  have hlast : Lexes [t] c'.skipGap (c'.skipGap.advance n) := by
    refine ⟨n, ?_, ?_⟩ <;> rw [c'.skipGap_skipGap]
    · exact ht
    · rfl
  have hall := hus.append hlast
  by_cases h : loose
  · rw [hloose h]
    exact hall.skipGap
  · rw [htight h]
    exact hall

theorem append (h : Fills ts loose c d) (h' : Fills us loose' d.skipGap e) :
    Fills (ts ++ us) loose' c e :=
  h.lexes.fills h'

/-- Behind the gap, it does not matter where in front of it the stretch ended. -/
theorem skipGap (h : Fills ts loose c d) : Fills ts True c d.skipGap := by
  obtain ⟨us, t, c', n, rfl, hus, ht, htight, hloose⟩ := h
  refine ⟨us, t, c', n, rfl, hus, ht, fun hfalse => absurd trivial hfalse, fun _ => ?_⟩
  by_cases h : loose
  · rw [hloose h, Cursor.skipGap_skipGap]
  · rw [htight h]

end Fills

-- ---------------------------------------------------------------------------
-- Words of the grammar
-- ---------------------------------------------------------------------------

namespace Grammar

open Cairn.Parser

variable {c d : Cursor}

theorem symbol_fills (s : Mark) (hs : s.startsLonger = false) (hc : c.Ready)
    (h : (symbol s.text).Passes c d) : Fills [.mark s] False c d := by
  obtain ⟨word, hrun⟩ := h
  have hrest := run_symbol hrun
  obtain ⟨n, hn, -, rfl⟩ := run_word hrun
  simp only [Word.symbol, Option.ite_none_right_eq_some, Option.some.injEq] at hn
  obtain ⟨-, rfl⟩ := hn
  refine .one hc ?_
  rw [hrest]
  exact Word.token?_of_mark s (by simp [hs])

theorem binaryOp_fills {op : BinaryOp} (hc : c.Ready) (h : (binaryOp op).Passes c d) :
    Fills [.mark (.binary op)] False c d := by
  obtain ⟨a, ha⟩ := h
  have hmap : ((fun _ => op) <$> symbol op.text).run c = some (a, d) := ha
  obtain ⟨word, hword, -⟩ := run_map hmap
  exact symbol_fills (.binary op) rfl hc ⟨word, hword⟩

theorem assignOp_fills (hc : c.Ready) (h : (Parser.word Word.assignOp).Passes c d) :
    Fills [.mark .assign] False c d := by
  obtain ⟨word, hrun⟩ := h
  obtain ⟨n, hn, -, rfl⟩ := run_word hrun
  unfold Word.assignOp at hn
  split at hn
  · next rest hrest =>
    split at hn
    · cases hn
    · next hne =>
      cases hn
      refine .one hc ?_
      rw [hrest]
      exact Word.token?_of_mark .assign fun _ => hne
  · cases hn

theorem unaryOp_fills {op : UnaryOp} (hc : c.Ready) (h : (unaryOp op).Passes c d) :
    Fills [.mark (.unary op)] False c d := by
  obtain ⟨a, ha⟩ := h
  obtain ⟨f, hf, -⟩ := run_located ha
  obtain ⟨word, hword, -⟩ := run_map hf
  obtain ⟨n, hn, -, rfl⟩ := run_word hword
  unfold Word.unaryOp at hn
  split at hn
  · next rest hrest =>
    cases hn
    refine .one hc ?_
    rw [hrest]
    exact Word.token?_of_mark (.unary .neg) (by rintro ⟨⟩)
  · next rest hrest =>
    split at hn
    · cases hn
    · next hne =>
      cases hn
      refine .one hc ?_
      rw [hrest]
      exact Word.token?_of_mark (.unary .not) fun _ => hne
  · cases hn

theorem keyword_fills {k : Keyword} {t : Terminal} (ht : Token.ofWord k.text = t.token)
    (hc : c.Ready) (h : (keyword k).Passes c d) : Fills [t] False c d := by
  obtain ⟨word, hrun⟩ := h
  obtain ⟨n, hn, -, rfl⟩ := run_word hrun
  refine .one hc ?_
  rw [Word.token?_of_keyword hn, ht]

theorem typeName_fills {ty : Ty} (hc : c.Ready) (h : typeName.run c = some (ty, d)) :
    Fills ty.terminals False c d := by
  have hword : ∀ {k : Keyword} {ty' : Ty} {t : Terminal},
      ((fun _ => ty') <$> keyword k).run c = some (ty, d) → Token.ofWord k.text = t.token →
      ty'.terminals = [t] → Fills ty.terminals False c d := by
    intro k ty' t hrun ht hterminals
    obtain ⟨word, hword, rfl⟩ := run_map hrun
    rw [hterminals]
    exact keyword_fills ht hc ⟨word, hword⟩
  rcases run_orElse h with h | h
  · exact hword h rfl rfl
  rcases run_orElse h with h | h
  · exact hword h rfl rfl
  rcases run_orElse h with h | h
  · exact hword h rfl rfl
  · exact hword h rfl rfl

end Grammar

open Grammar

theorem Ident.Covers.fills {x : Ident} {c d : Cursor} (h : x.Covers c d) (hc : c.Ready) :
    Fills [.name x.name] False c d := by
  obtain ⟨n, hn, hname, rfl⟩ := Parser.run_word h.run_word.2
  refine .one hc ?_
  rw [Word.token?_of_ident hn, ← hname, String.ofList_toList]
  rfl

theorem Grammar.run_lexeme {r : Rule} {f : List Char → Lexeme} {measure : List Char → Option Nat}
    (c : Cursor) : (literal r (f <$> .word measure)).run c =
      (measure c.rest).map fun n =>
        (.literal (c.upTo (c.advance n)) (f (c.rest.take n)), c.advance n) := by
  show Option.map _ (Option.map _ (Option.map _ (Option.map _ (measure c.rest)))) = _
  rw [Option.map_map, Option.map_map, Option.map_map]
  rfl

/-- What a literal is read from is one token, with the same value. -/
theorem Lexeme.Covers.fills {lexeme : Lexeme} {loc : Location} {value : Literal} {c d : Cursor}
    (h : lexeme.Covers loc c d) (hvalue : value.IsValueOf lexeme) (hc : c.Ready) :
    Fills [.literal value] False c d := by
  have hfills : ∀ {n : Nat}, Word.lexeme? c.rest = some (lexeme, n) → d = c.advance n →
      Fills [.literal value] False c d := by
    rintro n hn rfl
    refine .one hc ?_
    rw [Word.token?, hn]
    exact Option.map_eq_some_iff.mpr ⟨value, hvalue, rfl⟩
  have htruth : ∀ {k : Keyword} {b : Bool}, Token.ofWord k.text = .literal (.bool b) →
      ((fun _ => Lexeme.bool b) <$> keyword k).run c = some (lexeme, d) →
      Fills [.literal value] False c d := by
    intro k b hk hrun
    obtain ⟨word, hword, rfl⟩ := Parser.run_map hrun
    cases hvalue
    exact keyword_fills hk hc ⟨word, hword⟩
  rcases Parser.run_orElse_cases h with h | ⟨hfloat, h⟩
  · obtain ⟨n, hn, heq⟩ := Option.map_eq_some_iff.mp ((run_lexeme c).symm.trans h)
    cases heq
    exact hfills (by rw [Word.lexeme?, hn]; rfl) rfl
  have hfloat := Option.map_eq_none_iff.mp ((run_lexeme c).symm.trans hfloat)
  rcases Parser.run_orElse_cases h with h | ⟨hint, h⟩
  · obtain ⟨n, hn, heq⟩ := Option.map_eq_some_iff.mp ((run_lexeme c).symm.trans h)
    cases heq
    exact hfills (by rw [Word.lexeme?, hfloat, hn]; rfl) rfl
  have hint := Option.map_eq_none_iff.mp ((run_lexeme c).symm.trans hint)
  rcases Parser.run_orElse h with h | h
  · obtain ⟨n, hn, heq⟩ := Option.map_eq_some_iff.mp ((run_lexeme c).symm.trans h)
    cases heq
    exact hfills (by rw [Word.lexeme?, hfloat, hint, hn]; rfl) rfl
  · obtain ⟨_, heq, hrun⟩ := run_literal h
    cases heq
    rcases Parser.run_orElse hrun with hrun | hrun
    · exact htruth rfl hrun
    · exact htruth rfl hrun

-- ---------------------------------------------------------------------------
-- Trees
-- ---------------------------------------------------------------------------

theorem Enclosed.fills {R : Cursor → Cursor → Prop} {ts : List Terminal}
    (hR : ∀ c d, c.Ready → R c d → Lexes ts c d) (left right : Mark)
    (hmarks : left.startsLonger = false ∧ right.startsLonger = false) {c d : Cursor} (hc : c.Ready)
    (h : Enclosed left.text right.text R c d) :
    Fills (.mark left :: (ts ++ [.mark right])) False c d := by
  obtain ⟨c₁, c₂, hopen, hinner, hclose⟩ := h
  exact (symbol_fills left hmarks.1 hc hopen).append <| (hR _ _ c₁.ready_skipGap hinner).fills <|
    symbol_fills right hmarks.2 c₂.ready_skipGap hclose

theorem Listed.lexes {α : Type} {R : α → Cursor → Cursor → Prop} {f : α → List Terminal}
    (hR : ∀ a c d, c.Ready → R a c d → Lexes (f a) c d) {as : List α} {c d : Cursor}
    (h : Listed R as c d) (hc : c.Ready) : Lexes (commaSeparated (as.map f)) c d := by
  induction h with
  | one ha =>
    rw [List.map_singleton, commaSeparated, List.flatMap_nil, List.append_nil]
    exact hR _ _ _ hc ha
  | @more a rest c c₁ c₂ d ha hcomma hrest ih =>
    have hterminals : commaSeparated ((a :: rest).map f) =
        f a ++ .mark .comma :: commaSeparated (rest.map f) := by
      cases hrest <;> simp [commaSeparated]
    rw [hterminals]
    exact (hR _ _ _ hc ha).append <|
      (symbol_fills .comma rfl c₁.ready_skipGap hcomma).lexes.append (ih c₂.ready_skipGap)

/-- The expression ends in an assignment or in a choice. -/
def Expr.EndsOpen {L : Type} : Expr L → Prop
  | .unary _ _ operand => operand.EndsOpen
  | .binary _ _ _ right => right.EndsOpen
  | .assign .. => True
  | .ternary .. => True
  | _ => False

/-- **The terminals of an expression** are the tokens of the text that it covers, up to the last
one or to the gap behind it. -/
theorem Expr.Covers.fills {e : Expr Literal} {c d : Cursor} (h : e.Covers Literal.IsValueOf c d)
    (hc : c.Ready) : Fills e.terminals e.EndsOpen c d := by
  induction e generalizing c d with
  | literal loc value =>
    obtain ⟨lexeme, hvalue, hlexeme⟩ := h
    exact hlexeme.fills hvalue hc
  | name loc x => exact Ident.Covers.fills h hc
  | group loc inner ih =>
    have hinner := fun c d hc hinner => (@ih c d hinner hc).lexes
    exact Enclosed.fills hinner .leftParen .rightParen ⟨rfl, rfl⟩ hc h.2
  | unary loc op operand ih =>
    obtain ⟨-, c₁, hop, hoperand⟩ := h
    exact (unaryOp_fills hc hop).append (ih hoperand c₁.ready_skipGap)
  | binary loc op left right ihl ihr =>
    obtain ⟨-, c₁, c₂, hleft, hop, hright⟩ := h
    exact (ihl hleft hc).append <| (binaryOp_fills c₁.ready_skipGap hop).append <|
      ihr hright c₂.ready_skipGap
  | assign loc target value ih =>
    obtain ⟨-, c₁, c₂, c₃, htarget, hop, hvalue, rfl⟩ := h
    exact (htarget.fills hc).append <| (assignOp_fills c₁.ready_skipGap hop).append <|
      (ih hvalue c₂.ready_skipGap).skipGap
  | ternary loc cond onTrue onFalse ihc iht ihf =>
    obtain ⟨-, c₁, c₂, c₃, c₄, c₅, hcond, hmark, htrue, hcolon, hfalse, rfl⟩ := h
    exact (ihc hcond hc).append <|
      (symbol_fills .question rfl c₁.ready_skipGap hmark).append <|
      (iht htrue c₂.ready_skipGap).append <|
      (symbol_fills .colon rfl c₃.ready_skipGap hcolon).append <|
      (ihf hfalse c₄.ready_skipGap).skipGap

theorem Enclosed.fills_condition {cond : Expr Literal} {c d : Cursor}
    (h : Enclosed "(" ")" (cond.Covers Literal.IsValueOf) c d) (hc : c.Ready) :
    Fills cond.conditionTerminals False c d :=
  Enclosed.fills (fun _ _ hd hcond => (hcond.fills hd).lexes) .leftParen .rightParen ⟨rfl, rfl⟩ hc h

theorem Listed.lexes_names {names : List Ident} {c d : Cursor} (h : Listed Ident.Covers names c d)
    (hc : c.Ready) : Lexes (namesTerminals names) c d :=
  Listed.lexes (fun _ _ _ hc hx => (hx.fills hc).lexes) h hc

theorem semicolon_fills {c d : Cursor} (h : (symbol ";").Passes c.skipGap d) :
    Fills [.mark .semicolon] False c.skipGap d :=
  symbol_fills .semicolon rfl c.ready_skipGap h

mutual

/-- **The terminals of a statement** are the tokens of the text that it covers, up to the last
one or to the gap behind it. -/
theorem Stmt.Covers.fills {s : Stmt Literal} {c d : Cursor} (h : s.Covers Literal.IsValueOf c d)
    (hc : c.Ready) : Fills s.terminals s.EndsOpen c d := by
  cases s with
  | empty loc => exact symbol_fills .semicolon rfl hc h.2
  | declaration loc ty names =>
    obtain ⟨-, c₁, c₂, hty, hnames, hmark⟩ := h
    exact (typeName_fills hc hty).append <| (hnames.lexes_names c₁.ready_skipGap).fills <|
      semicolon_fills hmark
  | expression loc e =>
    obtain ⟨-, c₁, he, hmark⟩ := h
    exact (he.fills hc).append (semicolon_fills hmark)
  | read loc names =>
    obtain ⟨-, c₁, c₂, hword, hnames, hmark⟩ := h
    exact (keyword_fills rfl hc hword).append <| (hnames.lexes_names c₁.ready_skipGap).fills <|
      semicolon_fills hmark
  | write loc exprs =>
    obtain ⟨-, c₁, c₂, hword, hexprs, hmark⟩ := h
    have hlisted := Listed.lexes (fun _ _ _ hc he => (he.fills hc).lexes) hexprs c₁.ready_skipGap
    exact (keyword_fills rfl hc hword).append <| hlisted.fills (semicolon_fills hmark)
  | block loc body =>
    have hbody : ∀ c d, c.Ready → Stmt.CoversAll Literal.IsValueOf body c d →
        Lexes (Stmt.terminalsAll body) c d := fun _ _ _ hbody => Stmt.CoversAll.lexes hbody
    exact Enclosed.fills hbody .leftBrace .rightBrace ⟨rfl, rfl⟩ hc h.2
  | ifThen loc cond onTrue =>
    obtain ⟨-, c₁, c₂, c₃, hword, hcond, htrue, rfl⟩ := h
    exact (keyword_fills rfl hc hword).append <| (hcond.fills_condition c₁.ready_skipGap).append <|
      (Stmt.Covers.fills htrue c₂.ready_skipGap).skipGap
  | ifElse loc cond onTrue onFalse =>
    obtain ⟨-, c₁, c₂, c₃, c₄, hword, hcond, htrue, helse, hfalse⟩ := h
    exact (keyword_fills rfl hc hword).append <| (hcond.fills_condition c₁.ready_skipGap).append <|
      (Stmt.Covers.fills htrue c₂.ready_skipGap).append <|
      (keyword_fills rfl c₃.ready_skipGap helse).append <|
      Stmt.Covers.fills hfalse c₄.ready_skipGap
  | whileDo loc cond body =>
    obtain ⟨-, c₁, c₂, hword, hcond, hbody⟩ := h
    exact (keyword_fills rfl hc hword).append <| (hcond.fills_condition c₁.ready_skipGap).append <|
      Stmt.Covers.fills hbody c₂.ready_skipGap
  | doWhile loc body cond =>
    obtain ⟨-, c₁, c₂, c₃, c₄, hword, hbody, hagain, hcond, hmark⟩ := h
    exact (keyword_fills rfl hc hword).append <|
      (Stmt.Covers.fills hbody c₁.ready_skipGap).append <|
      (keyword_fills rfl c₂.ready_skipGap hagain).append <|
      (hcond.fills_condition c₃.ready_skipGap).append (semicolon_fills hmark)

theorem Stmt.CoversAll.lexes {body : List (Stmt Literal)} {c d : Cursor}
    (h : Stmt.CoversAll Literal.IsValueOf body c d) : Lexes (Stmt.terminalsAll body) c d := by
  cases body with
  | nil =>
    cases h
    exact rfl
  | cons s rest =>
    obtain ⟨c₁, hs, hrest⟩ := h
    have hfirst := (Stmt.Covers.fills hs c.ready_skipGap).lexes.congr c.skipGap_skipGap
    exact hfirst.append ((Stmt.CoversAll.lexes hrest).congr c₁.skipGap_skipGap.symm)

end

-- ---------------------------------------------------------------------------
-- Programs
-- ---------------------------------------------------------------------------

/-- **A parsed program** has the tokens of its source, in their order. -/
theorem Program.tokens_of_parse {limit : Nat} {source : String} {program : Program}
    (h : parseWithin limit source = .ok program) :
    tokens source.toList = some ((Stmt.terminalsAll program).map Terminal.token) := by
  obtain ⟨d, hcovers, hend⟩ := Program.covers_of_parse h
  have hlexes := (Stmt.CoversAll.lexes hcovers).congr (Cursor.skipGap_skipGap _)
  exact hlexes.tokensBelow_eq hend (Nat.lt_succ_of_le hlexes.length_le)

/-- **The trees of parsed programs**, whatever the limit on nesting.

1. The precedence of an operator is its level among `BinaryOp.levels`.
2. Operators are grouped by precedence, those of one level to the left, and an `else`
   belongs to the nearest `if`.
3. From left to right, with the parentheses that the tree keeps, the program is the
   sequence of the tokens of its source. -/
theorem Program.grouped_in_token_order {limit : Nat} {source : String} {program : Program}
    (h : parseWithin limit source = .ok program) :
    (∀ op : BinaryOp, ∃ level, BinaryOp.levels[op.precedence]? = some level ∧ op ∈ level) ∧
      (∀ s ∈ program, s.Grouped) ∧
      tokens source.toList = some ((Stmt.terminalsAll program).map Terminal.token) :=
  ⟨BinaryOp.mem_levels, grouped_of_parse h, tokens_of_parse h⟩

/-- What is assigned in the text below: `((-1) - (2 * y)) - z` and a comparison
that has a choice in parentheses on its left. -/
def mixedValues : List (Expr Literal) :=
  [.binary nowhere .sub
      (.binary nowhere .sub (.unary nowhere .neg (.literal nowhere (.int 1)))
        (.binary nowhere .mul (.literal nowhere (.int 2)) (.name nowhere "y")))
      (.name nowhere "z"),
    .binary nowhere .lt
      (.group nowhere (.ternary nowhere (.name nowhere "c") (.literal nowhere (.int 3))
        (.literal nowhere (.int 4))))
      (.literal nowhere (.int 5))]

/-- A text in which an `else` follows two `if`s, and signs, products and differences
follow each other. -/
def mixedText : String :=
  "if (a) if (b) x = -1-2*y -z; else x = (c ? 3 : 4) < /* five */ 05; // end"

theorem Program.grouped_in_token_order_mixed :
    ∃ program, parseWithin 9 mixedText = .ok program ∧
      (Stmt.assignmentsAll program).map (fun a => a.2.bare) = mixedValues ∧
      (∀ op : BinaryOp, ∃ level, BinaryOp.levels[op.precedence]? = some level ∧ op ∈ level) ∧
      (∀ s ∈ program, s.Grouped) ∧
      tokens mixedText.toList = some ((Stmt.terminalsAll program).map Terminal.token) := by
  obtain ⟨program, hparse, hvalues⟩ : ∃ program, parseWithin 9 mixedText = .ok program ∧
      (Stmt.assignmentsAll program).map (fun a => a.2.bare) = mixedValues :=
    exists_ok_of_toOption (by decide +kernel)
  exact ⟨program, hparse, hvalues, grouped_in_token_order hparse⟩

end Cairn
