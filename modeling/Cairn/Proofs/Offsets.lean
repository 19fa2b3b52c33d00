import Cairn.Proofs.Extents
import Cairn.Text.Utf8

/-!
# Cairn — how far cursors have come

Whatever a parser reads stands between two cursors in the same text, so the
bytes between them can be counted: a mark and a name take up as many bytes as
they have, every other word at least one, and the text behind the backslashes of
a literal no more than the literal.

## Main statements

* `Cursor.Precedes.offset_le`  — later cursors are at later bytes.
* `Expr.Covers.before`, `Stmt.Covers.before` — what trees cover is not empty.
* `Program.offset_le_of_parse` — no statement of a program goes past its text.
-/

namespace Cairn

-- ---------------------------------------------------------------------------
-- Bytes of a text
-- ---------------------------------------------------------------------------

/-- How many bytes the characters take up. -/
def utf8Length : List Char → Nat
  | [] => 0
  | c :: cs => c.utf8Size + utf8Length cs

theorem utf8Length_append (cs ds : List Char) :
    utf8Length (cs ++ ds) = utf8Length cs + utf8Length ds := by
  induction cs with
  | nil => simp [utf8Length]
  | cons c cs ih => rw [List.cons_append, utf8Length, utf8Length, ih, Nat.add_assoc]

theorem utf8Length_pos {cs : List Char} (h : cs ≠ []) : 0 < utf8Length cs := by
  cases cs with
  | nil => exact absurd rfl h
  | cons c cs =>
    have hc := c.utf8Size_pos
    rw [utf8Length]
    omega

theorem utf8Length_le_of_sublist {cs ds : List Char} (h : cs.Sublist ds) :
    utf8Length cs ≤ utf8Length ds := by
  induction h with
  | slnil => exact Nat.le_refl _
  | cons c _ ih =>
    rw [utf8Length]
    omega
  | cons_cons c _ ih =>
    rw [utf8Length, utf8Length]
    omega

theorem length_utf8Bytes (s : String) : (utf8Bytes s).length = utf8Length s.toList := by
  have hsize : ∀ cs, (String.ofList cs).utf8ByteSize = utf8Length cs := by
    intro cs
    induction cs with
    | nil => rfl
    | cons c cs ih =>
      rw [utf8Length, ← ih, ← String.utf8ByteSize_singleton, ← String.utf8ByteSize_append]
      congr 1
      simp
  rw [← hsize, String.ofList_toList]
  simp [utf8Bytes]

/-- Escapes are no shorter than what they stand for. -/
theorem Word.utf8Length_unescape_le (cs : List Char) :
    utf8Length (unescape cs) ≤ utf8Length cs := by
  have hescape : ∀ c d : Char, c.utf8Size = 1 → ∀ m n, m ≤ n →
      c.utf8Size + m ≤ '\\'.utf8Size + (d.utf8Size + n) := by
    intro c d hc m n hmn
    have hd := d.utf8Size_pos
    omega
  fun_induction unescape cs with
  | case1 cs ih => exact hescape '\n' 'n' rfl _ _ ih
  | case2 cs ih => exact hescape '\t' 't' rfl _ _ ih
  | case3 cs ih => exact hescape '\r' 'r' rfl _ _ ih
  | case4 c cs _ _ _ ih =>
    simp only [utf8Length]
    omega
  | case5 c cs _ _ _ _ ih =>
    simp only [utf8Length]
    omega
  | case6 => exact Nat.le_refl _

-- ---------------------------------------------------------------------------
-- Cursors in one text
-- ---------------------------------------------------------------------------

theorem Place.offset_after (p : Place) (cs : List Char) :
    (p.after cs).offset = p.offset + utf8Length cs := by
  induction cs generalizing p with
  | nil => rfl
  | cons c cs ih =>
    have hnext : (p.next c).offset = p.offset + c.utf8Size := by
      unfold next
      split <;> rfl
    rw [after_cons, ih, hnext, utf8Length, Nat.add_assoc]

namespace Cursor

/-- The byte at which the text ahead starts. -/
def offset (c : Cursor) : Nat :=
  c.place.offset

/-- The later cursor is behind some of the text that is ahead of the earlier
one. -/
def Precedes (c d : Cursor) : Prop :=
  ∃ cs, c.rest = cs ++ d.rest ∧ d.place = c.place.after cs

variable {c d e : Cursor}

theorem Precedes.refl (c : Cursor) : c.Precedes c :=
  ⟨[], rfl, rfl⟩

theorem Precedes.trans (h : c.Precedes d) (h' : d.Precedes e) : c.Precedes e := by
  obtain ⟨cs, hrest, hplace⟩ := h
  obtain ⟨ds, hrest', hplace'⟩ := h'
  refine ⟨cs ++ ds, ?_, ?_⟩
  · rw [hrest, hrest', List.append_assoc]
  · rw [hplace', hplace, Place.after_append]

/-- What is behind and what is ahead is the whole text. -/
theorem Precedes.offset_add (h : c.Precedes d) :
    d.offset + utf8Length d.rest = c.offset + utf8Length c.rest := by
  obtain ⟨cs, hrest, hplace⟩ := h
  rw [offset, hplace, Place.offset_after, hrest, utf8Length_append, Nat.add_assoc]
  rfl

theorem Precedes.offset_le (h : c.Precedes d) : c.offset ≤ d.offset := by
  obtain ⟨cs, -, hplace⟩ := h
  rw [offset, offset, hplace, Place.offset_after]
  omega

theorem precedes_advance (c : Cursor) (n : Nat) : c.Precedes (c.advance n) :=
  ⟨c.rest.take n, (List.take_append_drop n c.rest).symm, rfl⟩

theorem precedes_skipGap (c : Cursor) : c.Precedes c.skipGap :=
  c.precedes_advance _

theorem le_skipGap (c : Cursor) : c.offset ≤ c.skipGap.offset :=
  c.precedes_skipGap.offset_le

theorem Precedes.skipGap (h : c.Precedes d) : c.Precedes d.skipGap :=
  h.trans d.precedes_skipGap

/-- The later cursor is behind at least one character more. -/
def Before (c d : Cursor) : Prop :=
  c.Precedes d ∧ c.offset < d.offset

theorem Before.trans (h : c.Before d) (h' : d.Precedes e) : c.Before e :=
  ⟨h.1.trans h', Nat.lt_of_lt_of_le h.2 h'.offset_le⟩

theorem Before.skipGap (h : c.Before d) : c.Before d.skipGap :=
  h.trans d.precedes_skipGap

end Cursor

-- ---------------------------------------------------------------------------
-- Words
-- ---------------------------------------------------------------------------

/-- Whatever the parser reads takes up some of the text ahead. -/
def Parser.Advances {α : Type} (p : Parser α) : Prop :=
  ∀ c a d, p.run c = some (a, d) → c.Before d

namespace Parser.Advances

variable {α β : Type}

theorem map {p : Parser α} (h : p.Advances) (f : α → β) : (f <$> p).Advances := by
  intro c b d hrun
  obtain ⟨a, ha, -⟩ := run_map hrun
  exact h c a d ha

theorem orElse {p q : Parser α} (hp : p.Advances) (hq : q.Advances) : (p <|> q).Advances := by
  intro c a d hrun
  rcases run_orElse hrun with h | h
  · exact hp c a d h
  · exact hq c a d h

theorem rule {p : Parser α} (h : p.Advances) (r : Rule) : (p.rule r).Advances := h

theorem located {p : Parser (Location → α)} (h : p.Advances) : p.located.Advances := by
  intro c a d hrun
  obtain ⟨f, hf, -⟩ := run_located hrun
  exact h c f d hf

theorem passes {p : Parser α} (h : p.Advances) {c d : Cursor} (hrun : p.Passes c d) :
    c.Before d := by
  obtain ⟨a, ha⟩ := hrun
  exact h c a d ha

end Parser.Advances

theorem Parser.offset_of_word {measure : List Char → Option Nat} {c d : Cursor} {word : List Char}
    (h : (Parser.word measure).run c = some (word, d)) :
    c.Precedes d ∧ d.offset = c.offset + utf8Length word := by
  obtain ⟨n, -, rfl, rfl⟩ := run_word h
  exact ⟨c.precedes_advance n, Place.offset_after _ _⟩

theorem Parser.word_advances {measure : List Char → Option Nat}
    (h : ∀ cs n, measure cs = some n → cs.take n ≠ []) : (Parser.word measure).Advances := by
  intro c word d hrun
  obtain ⟨hprecedes, hoffset⟩ := offset_of_word hrun
  obtain ⟨n, hn, rfl, -⟩ := run_word hrun
  have hpos := utf8Length_pos (h c.rest n hn)
  exact ⟨hprecedes, by omega⟩

namespace Grammar

open Cairn.Parser

/-- A mark takes up the bytes of its text. -/
theorem offset_of_symbol {text : String} {c d : Cursor} (h : (symbol text).Passes c d) :
    c.Precedes d ∧ d.offset = c.offset + utf8Length text.toList := by
  obtain ⟨word, hword⟩ := h
  obtain ⟨hprecedes, -⟩ := offset_of_word hword
  have hsame := hprecedes.offset_add
  rw [run_symbol hword, utf8Length_append] at hsame
  exact ⟨hprecedes, by omega⟩

theorem symbol_advances {text : String} (h : text.toList ≠ []) : (symbol text).Advances := by
  intro c word d hrun
  obtain ⟨hprecedes, hoffset⟩ := offset_of_symbol ⟨word, hrun⟩
  have hpos := utf8Length_pos h
  exact ⟨hprecedes, by omega⟩

theorem lt_of_symbol {text : String} {c d : Cursor} (h : (symbol text).Passes c d)
    (hne : text.toList ≠ []) : c.offset < d.offset :=
  ((symbol_advances hne).passes h).2

theorem offset_of_binaryOp {op : BinaryOp} {c d : Cursor} (h : (binaryOp op).Passes c d) :
    c.Precedes d ∧ d.offset = c.offset + utf8Length op.text.toList := by
  obtain ⟨a, ha⟩ := h
  have hmap : ((fun _ => op) <$> symbol op.text).run c = some (a, d) := ha
  obtain ⟨word, hword, -⟩ := run_map hmap
  exact offset_of_symbol ⟨word, hword⟩

theorem keyword_advances (k : Keyword) : (keyword k).Advances :=
  (word_advances fun cs n h => (Word.plain_keyword k cs n h).1).rule _

theorem assignOp_advances : (Parser.word Word.assignOp).Advances :=
  word_advances fun cs n h => (Word.plain_assignOp cs n h).1

theorem ident_advances : ident.Advances :=
  (((word_advances fun cs n h => (Word.plain_ident cs n h).1).map _).located).rule _

theorem unaryOp_advances (op : UnaryOp) : (unaryOp op).Advances := by
  refine (((word_advances fun cs n h => ?_).map _).located).rule _
  obtain ⟨c, rest, rfl, rfl, -⟩ := Word.unaryOp_eq_some h
  exact List.cons_ne_nil _ _

theorem typeName_advances : typeName.Advances :=
  ((((keyword_advances _).map _).orElse <| ((keyword_advances _).map _).orElse <|
    ((keyword_advances _).map _).orElse <| (keyword_advances _).map _)).rule _

theorem literal_advances {p : Parser (Expr Lexeme)} (h : p ∈ [float, int, string, bool]) :
    p.Advances := by
  have hliteral : ∀ {r value}, value.Advances → (literal r value).Advances :=
    fun hvalue => ((hvalue.map _).located).rule _
  simp only [List.mem_cons, List.not_mem_nil, or_false] at h
  rcases h with rfl | rfl | rfl | rfl
  · exact hliteral ((word_advances fun cs n h => (Word.plain_float cs n h).1).map _)
  · exact hliteral ((word_advances fun cs n h => (Word.plain_int cs n h).1).map _)
  · refine hliteral ((word_advances fun cs n h => ?_).map _)
    obtain ⟨rest, m, rfl, -, rfl⟩ := Word.string_eq_some h
    exact List.cons_ne_nil _ _
  · exact hliteral (((keyword_advances _).map _).orElse ((keyword_advances _).map _))

theorem anyLiteral_advances : anyLiteral.Advances := by
  intro c e d hrun
  obtain ⟨p, hp, hrun⟩ := exists_of_anyLiteral hrun
  exact literal_advances hp c e d hrun

end Grammar

open Grammar

theorem Ident.Covers.offset {x : Ident} {c d : Cursor} (h : x.Covers c d) :
    c.Precedes d ∧ c.offset < d.offset ∧ d.offset = c.offset + (utf8Bytes x.name).length := by
  obtain ⟨hprecedes, hlt⟩ := ident_advances c x d h
  rw [length_utf8Bytes]
  exact ⟨hprecedes, hlt, (Parser.offset_of_word h.run_word.2).2⟩

/-- A text in quotes takes up no fewer bytes than the text it stands for. -/
theorem Lexeme.Covers.text_le {text : String} {loc : Location} {c d : Cursor}
    (h : (Lexeme.str text).Covers loc c d) : c.offset + (utf8Bytes text).length ≤ d.offset := by
  obtain ⟨p, hp, hrun⟩ := exists_of_anyLiteral h
  simp only [List.mem_cons, List.not_mem_nil, or_false] at hp
  rcases hp with rfl | rfl | rfl | rfl
  all_goals
    obtain ⟨_, heq, hvalue⟩ := run_literal hrun
    cases heq
  · obtain ⟨_, -, heq⟩ := Parser.run_map hvalue
    cases heq
  · obtain ⟨_, -, heq⟩ := Parser.run_map hvalue
    cases heq
  · obtain ⟨word, hword, heq⟩ := Parser.run_map hvalue
    cases heq
    obtain ⟨-, hoffset⟩ := Parser.offset_of_word hword
    have hinside : utf8Length (word.drop 1).dropLast ≤ utf8Length word :=
      utf8Length_le_of_sublist ((List.dropLast_sublist _).trans (List.drop_sublist 1 word))
    have hunescape := Word.utf8Length_unescape_le (word.drop 1).dropLast
    rw [length_utf8Bytes, String.toList_ofList]
    omega
  · rcases Parser.run_orElse hvalue with h | h
    all_goals
      obtain ⟨_, -, heq⟩ := Parser.run_map h
      cases heq

-- ---------------------------------------------------------------------------
-- Trees
-- ---------------------------------------------------------------------------

section

variable {L : Type} {S : L → Lexeme → Prop}

theorem Enclosed.before {left right : String} {R : Cursor → Cursor → Prop} {c d : Cursor}
    (h : Enclosed left right R c d) (hleft : left.toList ≠ [])
    (hR : ∀ c d, R c d → c.Precedes d) : c.Before d := by
  obtain ⟨c₁, c₂, hopen, hinner, hclose⟩ := h
  exact ((symbol_advances hleft).passes hopen).skipGap.trans <|
    (hR _ _ hinner).skipGap.trans (offset_of_symbol hclose).1

theorem Listed.precedes {α : Type} {R : α → Cursor → Cursor → Prop}
    (hR : ∀ a c d, R a c d → c.Precedes d) {as : List α} {c d : Cursor} (h : Listed R as c d) :
    c.Precedes d := by
  induction h with
  | one ha => exact hR _ _ _ ha
  | more ha hcomma _ ih =>
    exact (hR _ _ _ ha).skipGap.trans ((offset_of_symbol hcomma).1.skipGap.trans ih)

/-- What is collected from a list of things: a property of stretches that passes
from two stretches to what reaches over both holds of all that is collected, if it
holds of what each thing adds. The state `b` is what was seen before. -/
theorem Listed.collected {α β γ : Type} {R : α → Cursor → Cursor → Prop} {f : β → α → List γ}
    {u : β → α → β} {g : β → List α → List γ} (hnil : ∀ b, g b [] = [])
    (hcons : ∀ b a rest, g b (a :: rest) = f b a ++ g (u b a) rest)
    {P : List γ → Nat → Nat → Prop}
    (happend : ∀ {xs ys i j k l}, P xs i j → j ≤ k → P ys k l → P (xs ++ ys) i l)
    {as : List α} (hf : ∀ b, ∀ a ∈ as, ∀ c d, R a c d → P (f b a) c.offset d.offset)
    {c d : Cursor} (h : Listed R as c d) (b : β) : P (g b as) c.offset d.offset := by
  induction h generalizing b with
  | one ha =>
    rw [hcons, hnil, List.append_nil]
    exact hf b _ (List.mem_singleton_self _) _ _ ha
  | @more a rest c c₁ c₂ d ha hcomma _ ih =>
    have hle := (offset_of_symbol hcomma).1.offset_le
    have hgap := c₁.le_skipGap
    have hgap' := c₂.le_skipGap
    rw [hcons]
    have hrest := ih (fun b a' ha' => hf b a' (List.mem_cons_of_mem a ha')) (u b a)
    exact happend (hf b a List.mem_cons_self c c₁ ha) (by omega) hrest

/-- **Expressions take up some text.** -/
theorem Expr.Covers.before {e : Expr L} {c d : Cursor} (h : e.Covers S c d) : c.Before d := by
  induction e generalizing c d with
  | literal loc value =>
    obtain ⟨lexeme, -, hlexeme⟩ := h
    exact anyLiteral_advances c _ d hlexeme
  | name loc x => exact ident_advances c ⟨x, loc⟩ d h
  | group loc inner ih => exact h.2.before (by decide) fun _ _ hinner => (ih hinner).1
  | unary loc op operand ih =>
    obtain ⟨-, c₁, hop, hoperand⟩ := h
    exact ((unaryOp_advances op).passes hop).skipGap.trans (ih hoperand).1
  | binary loc op left right ihl ihr =>
    obtain ⟨-, c₁, c₂, hleft, hop, hright⟩ := h
    exact (ihl hleft).skipGap.trans <| (offset_of_binaryOp hop).1.skipGap.trans (ihr hright).1
  | assign loc target value ih =>
    obtain ⟨-, c₁, c₂, c₃, htarget, hop, hvalue, rfl⟩ := h
    exact (ident_advances c target c₁ htarget).skipGap.trans <|
      (assignOp_advances.passes hop).1.skipGap.trans (ih hvalue).1.skipGap
  | ternary loc cond onTrue onFalse ihc iht ihf =>
    obtain ⟨-, c₁, c₂, c₃, c₄, c₅, hcond, hmark, htrue, hcolon, hfalse, rfl⟩ := h
    exact (ihc hcond).skipGap.trans <| (offset_of_symbol hmark).1.skipGap.trans <|
      (iht htrue).1.skipGap.trans <| (offset_of_symbol hcolon).1.skipGap.trans
      (ihf hfalse).1.skipGap

mutual

/-- **Statements take up some text.** -/
theorem Stmt.Covers.before {s : Stmt L} {c d : Cursor} (h : s.Covers S c d) : c.Before d := by
  have hsemicolon : (symbol ";").Advances := symbol_advances (by decide)
  have hnames : ∀ {names : List Ident} {c d : Cursor}, Listed Ident.Covers names c d →
      c.Precedes d := Listed.precedes fun x c d hx => (ident_advances c x d hx).1
  have hcondition : ∀ {cond : Expr L} {c d : Cursor}, Enclosed "(" ")" (cond.Covers S) c d →
      c.Precedes d := fun hcond => (hcond.before (by decide) fun _ _ h => h.before.1).1
  cases s with
  | empty loc => exact hsemicolon.passes h.2
  | declaration loc ty names =>
    obtain ⟨-, c₁, c₂, hty, hlisted, hmark⟩ := h
    exact (typeName_advances c ty c₁ hty).skipGap.trans <| (hnames hlisted).skipGap.trans
      (hsemicolon.passes hmark).1
  | expression loc e =>
    obtain ⟨-, c₁, he, hmark⟩ := h
    exact he.before.skipGap.trans (hsemicolon.passes hmark).1
  | read loc names =>
    obtain ⟨-, c₁, c₂, hword, hlisted, hmark⟩ := h
    exact ((keyword_advances _).passes hword).skipGap.trans <| (hnames hlisted).skipGap.trans
      (hsemicolon.passes hmark).1
  | write loc exprs =>
    obtain ⟨-, c₁, c₂, hword, hlisted, hmark⟩ := h
    have hexprs := hlisted.precedes fun _ _ _ he => he.before.1
    exact ((keyword_advances _).passes hword).skipGap.trans <| hexprs.skipGap.trans
      (hsemicolon.passes hmark).1
  | block loc body =>
    exact h.2.before (by decide) fun _ _ hbody => Stmt.CoversAll.precedes hbody
  | ifThen loc cond onTrue =>
    obtain ⟨-, c₁, c₂, c₃, hword, hcond, htrue, rfl⟩ := h
    exact ((keyword_advances _).passes hword).skipGap.trans <| (hcondition hcond).skipGap.trans
      (Stmt.Covers.before htrue).1.skipGap
  | ifElse loc cond onTrue onFalse =>
    obtain ⟨-, c₁, c₂, c₃, c₄, hword, hcond, htrue, helse, hfalse⟩ := h
    exact ((keyword_advances _).passes hword).skipGap.trans <| (hcondition hcond).skipGap.trans <|
      (Stmt.Covers.before htrue).1.skipGap.trans <|
      ((keyword_advances _).passes helse).1.skipGap.trans (Stmt.Covers.before hfalse).1
  | whileDo loc cond body =>
    obtain ⟨-, c₁, c₂, hword, hcond, hbody⟩ := h
    exact ((keyword_advances _).passes hword).skipGap.trans <| (hcondition hcond).skipGap.trans
      (Stmt.Covers.before hbody).1
  | doWhile loc body cond =>
    obtain ⟨-, c₁, c₂, c₃, c₄, hword, hbody, hagain, hcond, hmark⟩ := h
    exact ((keyword_advances _).passes hword).skipGap.trans <|
      (Stmt.Covers.before hbody).1.skipGap.trans <|
      ((keyword_advances _).passes hagain).1.skipGap.trans <| (hcondition hcond).skipGap.trans
      (hsemicolon.passes hmark).1

theorem Stmt.CoversAll.precedes {body : List (Stmt L)} {c d : Cursor}
    (h : Stmt.CoversAll S body c d) : c.Precedes d := by
  cases body with
  | nil =>
    cases h
    exact .refl c
  | cons s rest =>
    obtain ⟨c₁, hs, hrest⟩ := h
    exact c.precedes_skipGap.trans <| (Stmt.Covers.before hs).1.trans
      (Stmt.CoversAll.precedes hrest)

end

end

/-- No statement of a program goes past its text. -/
theorem Program.offset_le_of_parse {limit : Nat} {source : String} {program : Program}
    (h : parseWithin limit source = .ok program) :
    ∃ c d, Stmt.CoversAll Literal.IsValueOf program c d ∧ d.offset ≤ (utf8Bytes source).length := by
  obtain ⟨d, hcovers, hend⟩ := covers_of_parse h
  have hprecedes := (Cursor.precedes_skipGap _).trans hcovers.precedes.skipGap
  have hsame := hprecedes.offset_add
  have hle := d.le_skipGap
  rw [hend] at hsame
  refine ⟨_, d, hcovers, ?_⟩
  rw [length_utf8Bytes]
  have hstart : (Cursor.ofChars source.toList).offset = 0 := rfl
  have hrest : (Cursor.ofChars source.toList).rest = source.toList := rfl
  rw [hstart, hrest, utf8Length] at hsame
  omega

end Cairn
