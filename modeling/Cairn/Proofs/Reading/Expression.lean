import Cairn.Proofs.Reading

/-!
# Cairn — expressions read back

The grammar reads the terminals of an expression in form as that expression. A
chain of operands is read from left to right, and `Expr.attach` finds the place
of each operator again: the left operand of an operator binds at least as tightly
as the operator, and all operators of the right one bind more tightly.

## Main statements

* `Expr.denotes_ofChain` — the tree of a chain is the tree it was taken from.
* `Grammar.expr_reads`   — an expression in form is read as itself.
-/

namespace Cairn

-- ---------------------------------------------------------------------------
-- Operands and chains
-- ---------------------------------------------------------------------------

namespace Expr

variable {L : Type}

/-- The unary operators in front of an operand. -/
def signs : Expr L → List UnaryOp
  | .unary _ op operand => op :: operand.signs
  | _ => []

/-- An operand without the unary operators in front of it. -/
def core : Expr L → Expr L
  | .unary _ _ operand => operand.core
  | e => e

/-- Literals, names and what stands in parentheses. -/
def IsPrimary : Expr L → Prop
  | .literal .. | .name .. | .group .. => True
  | _ => False

theorem terminals_operand (e : Expr Literal) :
    e.terminals = e.signs.flatMap (fun op => [.mark (.unary op)]) ++ e.core.terminals := by
  induction e with
  | unary loc op operand ih => rw [terminals, signs, core, List.flatMap_cons, ih]; rfl
  | _ => rfl

theorem core_inForm {e : Expr Literal} (h : e.InForm) (htight : 7 ≤ e.tightness) :
    e.core.InForm ∧ e.core.IsPrimary := by
  induction e with
  | literal => exact ⟨h, trivial⟩
  | name => exact ⟨h, trivial⟩
  | group => exact ⟨h, trivial⟩
  | unary loc op operand ih => exact ih h.2 h.1
  | binary loc op left right =>
    have : op.precedence ≤ 5 := by cases op <;> decide
    simp only [tightness] at htight
    omega
  | assign => simp [tightness] at htight
  | ternary => simp [tightness] at htight

theorem denotes_ofOperand {e : Expr Literal} {ops : List (UnaryOp × Location)} {a : Expr Lexeme}
    (hops : List.Forall₂ (fun op r => r.1 = op) e.signs ops) (ha : a.Denotes e.core) :
    (ofOperand ops a).Denotes e := by
  induction e generalizing ops with
  | unary loc op operand ih =>
    cases hops with
    | @cons _ r _ ops hop hops =>
      subst hop
      exact .unary (ih hops ha)
  | _ =>
    cases hops
    exact ha

/-- The first operand of a chain. -/
def first : Expr L → Expr L
  | .binary _ _ left _ => left.first
  | e => e

/-- The operators of a chain, each with the operand behind it. -/
def more : Expr L → List (BinaryOp × Expr L)
  | .binary _ op left right => left.more ++ (op, right.first) :: right.more
  | _ => []

/-- The terminals of an operator and the operand behind it. -/
def linkTerminals (link : BinaryOp × Expr Literal) : List Terminal :=
  .mark (.binary link.1) :: link.2.terminals

theorem terminals_chain (e : Expr Literal) :
    e.terminals = e.first.terminals ++ e.more.flatMap linkTerminals := by
  induction e with
  | binary loc op left right ihl ihr =>
    rw [terminals, ihl, ihr, first, more, List.flatMap_append, List.flatMap_cons, linkTerminals]
    simp only [List.append_assoc, List.cons_append]
  | _ => simp [first, more]

/-- An operand of a chain: it is in form, and no binary operator is its root. -/
def IsOperand (e : Expr Literal) : Prop :=
  e.InForm ∧ 7 ≤ e.tightness

theorem isOperand_of_chain {e : Expr Literal} (h : e.InForm) (htight : 0 < e.tightness) :
    e.first.IsOperand ∧ ∀ link ∈ e.more, link.2.IsOperand := by
  induction e with
  | binary loc op left right ihl ihr =>
    obtain ⟨hleft, hright, hl, hr⟩ := h
    obtain ⟨hfirst, hmore⟩ := ihl hl (by omega)
    obtain ⟨hfirst', hmore'⟩ := ihr hr (by omega)
    refine ⟨hfirst, fun link hlink => ?_⟩
    rcases List.mem_append.mp hlink with hlink | hlink
    · exact hmore link hlink
    · rcases List.mem_cons.mp hlink with rfl | hlink
      · exact hfirst'
      · exact hmore' link hlink
  | assign => cases htight
  | ternary => cases htight
  | _ => exact ⟨⟨h, Nat.le_refl 7⟩, fun link hlink => absurd hlink List.not_mem_nil⟩

/-- The operators of a chain bind at least as tightly as the chain. -/
theorem tightness_le_of_mem {e : Expr Literal} (h : e.InForm) :
    ∀ link ∈ e.more, e.tightness ≤ link.1.precedence + 1 := by
  induction e with
  | binary loc op left right ihl ihr =>
    obtain ⟨hleft, hright, hl, hr⟩ := h
    intro link hlink
    rw [tightness]
    rcases List.mem_append.mp hlink with hlink | hlink
    · have := ihl hl link hlink
      omega
    · rcases List.mem_cons.mp hlink with rfl | hlink
      · exact Nat.le_refl _
      · have := ihr hr link hlink
        omega
  | _ => exact fun link hlink => absurd hlink List.not_mem_nil

theorem attach_of_lt_tightness {op : BinaryOp} {right e : Expr L}
    (h : op.precedence < e.tightness) : ∃ loc, attach op right e = .binary loc op e right := by
  cases e with
  | binary loc op' l r =>
    rw [tightness] at h
    exact ⟨_, if_neg (by omega)⟩
  | _ => exact ⟨_, rfl⟩

/-- Operators that bind more tightly go into the right operand. -/
theorem ofChain_binary {loc : Location} {op : BinaryOp} {left right : Expr L}
    {links : List (BinaryOp × Expr L)} (h : ∀ link ∈ links, op.precedence < link.1.precedence) :
    ∃ loc', ofChain (.binary loc op left right) links =
      .binary loc' op left (ofChain right links) := by
  induction links generalizing loc right with
  | nil => exact ⟨loc, rfl⟩
  | cons link links ih =>
    obtain ⟨hlink, hlinks⟩ := List.forall_mem_cons.mp h
    have hattach : attach link.1 link.2 (.binary loc op left right) =
        .binary (left.loc.through (attach link.1 link.2 right).loc) op left
          (attach link.1 link.2 right) := if_pos hlink
    rw [ofChain, ofChain, List.foldl_cons, List.foldl_cons, hattach]
    exact ih hlinks

theorem ofChain_append (e : Expr L) (links : List (BinaryOp × Expr L)) (op : BinaryOp)
    (right : Expr L) (links' : List (BinaryOp × Expr L)) :
    ofChain e (links ++ (op, right) :: links') =
      ofChain (attach op right (ofChain e links)) links' := by
  rw [ofChain, List.foldl_append, List.foldl_cons]
  rfl

/-- An operator and an operand that are read as the given ones. -/
def LinkDenotes (link : BinaryOp × Expr Literal) (read : BinaryOp × Expr Lexeme) : Prop :=
  read.1 = link.1 ∧ read.2.Denotes link.2

theorem precedence_lt_of_links {k : Nat} {links : List (BinaryOp × Expr Literal)}
    {reads : List (BinaryOp × Expr Lexeme)} (h : List.Forall₂ LinkDenotes links reads)
    (hk : ∀ link ∈ links, k < link.1.precedence) : ∀ link ∈ reads, k < link.1.precedence := by
  induction h with
  | nil => exact fun _ hlink => absurd hlink List.not_mem_nil
  | cons hlink _ ih =>
    obtain ⟨hfirst, hrest⟩ := List.forall_mem_cons.mp hk
    exact List.forall_mem_cons.mpr ⟨hlink.1 ▸ hfirst, ih hrest⟩

theorem forall₂_append {α β : Type} {R : α → β → Prop} {xs ys : List α} {zs : List β}
    (h : List.Forall₂ R (xs ++ ys) zs) :
    ∃ us vs, zs = us ++ vs ∧ List.Forall₂ R xs us ∧ List.Forall₂ R ys vs := by
  induction xs generalizing zs with
  | nil => exact ⟨[], zs, rfl, .nil, h⟩
  | cons x xs ih =>
    cases h with
    | @cons _ z _ zs hz hzs =>
      obtain ⟨us, vs, rfl, hus, hvs⟩ := ih hzs
      exact ⟨z :: us, vs, rfl, .cons hz hus, hvs⟩

/-- **The tree of a chain** is the tree that the chain was taken from. -/
theorem denotes_ofChain {e : Expr Literal} (h : e.InForm) {a : Expr Lexeme}
    {links : List (BinaryOp × Expr Lexeme)} (ha : a.Denotes e.first)
    (hlinks : List.Forall₂ LinkDenotes e.more links) : (ofChain a links).Denotes e := by
  induction e generalizing a links with
  | binary loc op left right ihl ihr =>
    obtain ⟨hleft, hright, hl, hr⟩ := h
    obtain ⟨before, behind, rfl, hbefore, hbehind⟩ := forall₂_append hlinks
    cases hbehind with
    | @cons _ link _ after hlink hafter =>
      obtain ⟨op', b⟩ := link
      obtain ⟨hop, hb⟩ := hlink
      obtain rfl : op' = op := hop
      -- The left operand is complete when the operator comes, and what comes behind it binds more
      -- tightly.
      have hl' := ihl hl ha hbefore
      obtain ⟨loc₁, hattach⟩ : ∃ loc₁, attach op' b (ofChain a before) =
          .binary loc₁ op' (ofChain a before) b :=
        attach_of_lt_tightness (by rw [hl'.tightness_eq]; omega)
      have htight : ∀ link ∈ after, op'.precedence < link.1.precedence := by
        refine precedence_lt_of_links hafter fun link hlink => ?_
        have := tightness_le_of_mem hr link hlink
        omega
      obtain ⟨loc₂, hchain⟩ : ∃ loc₂, ofChain (.binary loc₁ op' (ofChain a before) b) after =
          .binary loc₂ op' (ofChain a before) (ofChain b after) := ofChain_binary htight
      rw [ofChain_append, hattach, hchain]
      exact .binary hl' (ihr hr hb hafter)
  | _ =>
    cases hlinks
    exact ha

end Expr

-- ---------------------------------------------------------------------------
-- Words
-- ---------------------------------------------------------------------------

namespace Grammar

open Parser.Reads

variable {ts : List Terminal}

theorem symbol_reads (s : Mark) : (symbol s.text).Reads [.mark s] (fun _ => True) anything := by
  refine (Parser.word_reads ?_).mono (fun _ _ => trivial) fun _ h => h
  rintro word tail rfl -
  exact Word.symbol_spells s tail

theorem symbol_refuses (s : Mark) (h : ∀ s', ts.head? = some (.mark s') → s'.front ≠ s.front) :
    (symbol s.text).Refuses ts := by
  obtain ⟨rest, hs⟩ := s.text_eq
  refine Parser.word_refuses ?_ ?_
  · simp [Word.symbol, hs]
  · intro t ht word tail hword _
    obtain ⟨c, cs, rfl, hopens⟩ := hword.opens
    refine Word.symbol_of_front ?_ _
    rintro rfl
    obtain ⟨s', rfl, hfront⟩ := hopens.eq_mark
    exact h s' ht hfront.symm

theorem keyword_reads {t : Terminal} {k : Keyword} (h : t.keyword? = some k) :
    (keyword k).Reads [t] (fun _ => True) anything := by
  refine ((Parser.word_reads ?_).mono (fun _ _ => trivial) fun _ h => h).rule _
  exact fun word tail => Word.keyword_spells h

theorem keyword_refuses {k : Keyword} (h : ts.head?.bind Terminal.keyword? ≠ some k) :
    (keyword k).Refuses ts := by
  refine (Parser.word_refuses ?_ ?_).rule _
  · obtain ⟨c, cs, hk, -⟩ := k.text_eq
    simp [Word.keyword, hk]
  · intro t ht word tail
    rw [ht] at h
    exact Word.keyword_eq_none h

theorem ident_reads (x : String) : ident.Reads [.name x] (fun y => y.name = x) anything := by
  have hword : (Parser.word Word.ident).Reads [.name x] (Terminal.name x).Spells anything := by
    refine Parser.word_reads ?_
    rintro word tail ⟨hx, rfl⟩ htail
    exact Word.ident_spells hx htail
  refine (located (hword.map ?_)).rule _
  rintro cs ⟨-, rfl⟩ loc
  exact String.ofList_toList

theorem ident_refuses (h : ∀ x, ts.head? ≠ some (.name x)) : ident.Refuses ts := by
  refine ((Parser.word_refuses rfl ?_).map _).located.rule _
  intro t ht word tail
  refine Word.ident_eq_none ?_
  rintro x rfl
  exact h x ht

/-- A unary operator in front of an operand. -/
def anyUnaryOp : Parser (UnaryOp × Location) :=
  unaryOp .neg <|> unaryOp .not

theorem unaryOp_refuses {op : UnaryOp}
    (h : ∀ s, ts.head? = some (.mark s) → s.front ≠ (Mark.unary op).front) :
    (unaryOp op).Refuses ts := by
  refine ((Parser.word_refuses ?_ ?_).map _).located.rule _
  · cases op <;> rfl
  · intro t ht word tail hword _
    obtain ⟨c, cs, rfl, hopens⟩ := hword.opens
    refine Word.unaryOp_of_front ?_ _
    rintro rfl
    obtain ⟨s, rfl, hfront⟩ := hopens.eq_mark
    exact h s ht hfront.symm

theorem unaryOp_reads (op : UnaryOp) :
    (unaryOp op).Reads [.mark (.unary op)] (fun r => r.1 = op) anything := by
  have hword : (Parser.word (Word.unaryOp op)).Reads [.mark (.unary op)]
      (Terminal.mark (.unary op)).Spells anything := by
    refine Parser.word_reads ?_
    rintro word tail rfl htail
    exact Word.unaryOp_spells op htail
  refine (located (hword.map ?_)).rule _
  exact fun _ _ _ => rfl

theorem anyUnaryOp_reads (op : UnaryOp) :
    anyUnaryOp.Reads [.mark (.unary op)] (fun r => r.1 = op) anything := by
  cases op with
  | neg => exact (unaryOp_reads .neg).orElse _
  | not =>
    refine orElse_right (fun _ _ => unaryOp_refuses ?_) (unaryOp_reads .not)
    intro s hs
    cases hs
    decide

theorem anyUnaryOp_refuses
    (h : ∀ s op, ts.head? = some (.mark s) → s.front ≠ (Mark.unary op).front) :
    anyUnaryOp.Refuses ts :=
  (unaryOp_refuses fun s => h s .neg).orElse (unaryOp_refuses fun s => h s .not)

theorem find?_front (op : BinaryOp) :
    BinaryOp.all.find? (fun op' => (Mark.binary op').front = (Mark.binary op).front) = some op := by
  cases op <;> rfl

/-- Binary operators differ in their first character. -/
theorem front_inj {op op' : BinaryOp} (h : (Mark.binary op).front = (Mark.binary op').front) :
    op = op' := by
  have hop := find?_front op
  rw [h, find?_front op'] at hop
  exact (Option.some.inj hop).symm

theorem binaryOp_reads (op : BinaryOp) :
    (binaryOp op).Reads [.mark (.binary op)] (· = op) anything := by
  refine ((symbol_reads (.binary op)).map ?_).rule _
  exact fun _ _ => rfl

theorem binaryOp_refuses {op : BinaryOp}
    (h : ∀ s, ts.head? = some (.mark s) → s.front ≠ (Mark.binary op).front) :
    (binaryOp op).Refuses ts :=
  ((symbol_refuses (.binary op) h).map _).rule _

theorem anyBinaryOp_reads (op : BinaryOp) :
    anyBinaryOp.Reads [.mark (.binary op)] (· = op) anything := by
  have hall : ∀ ops : List BinaryOp, op ∈ ops →
      (ops.foldr (fun op others => binaryOp op <|> others) .fail).Reads [.mark (.binary op)] (· = op)
        anything := by
    intro ops
    induction ops with
    | nil => exact fun hop => absurd hop List.not_mem_nil
    | cons first rest ih =>
      intro hop
      by_cases heq : op = first
      · subst heq
        exact (binaryOp_reads op).orElse _
      · have hrest := ih ((List.mem_cons.mp hop).resolve_left heq)
        refine orElse_right (fun _ _ => binaryOp_refuses ?_) hrest
        intro s hs
        cases hs
        exact fun hfront => heq (front_inj hfront)
  exact hall BinaryOp.all (by cases op <;> decide)

theorem anyBinaryOp_refuses
    (h : ∀ s op, ts.head? = some (.mark s) → s.front ≠ (Mark.binary op).front) :
    anyBinaryOp.Refuses ts := by
  have hall : ∀ ops : List BinaryOp,
      (ops.foldr (fun op others => binaryOp op <|> others) .fail).Refuses ts := by
    intro ops
    induction ops with
    | nil => exact fun _ _ => rfl
    | cons op rest ih => exact (binaryOp_refuses fun s => h s op).orElse ih
  exact hall BinaryOp.all

theorem assignOp_reads :
    (Parser.rule .assignOp (.word Word.assignOp)).Reads [.mark .assign] (fun _ => True)
      anything := by
  refine ((Parser.word_reads ?_).mono (fun _ _ => trivial) fun _ h => h).rule _
  rintro word tail rfl htail
  exact Word.assignOp_spells htail

theorem assignOp_refuses (h : ts.head? ≠ some (.mark .assign)) :
    (Parser.rule .assignOp (.word Word.assignOp)).Refuses ts := by
  refine (Parser.word_refuses rfl ?_).rule _
  intro t ht word tail hword _
  refine Word.assignOp_eq_none ?_ hword
  rintro rfl
  exact h ht

-- ---------------------------------------------------------------------------
-- Literals
-- ---------------------------------------------------------------------------

/-- The parser fails on whatever the first terminal may start with. -/
theorem word_refuses_of_front {measure : List Char → Option Nat} (hnil : measure [] = none)
    (h : ∀ t c cs, ts.head? = some t → t.Opens c → measure (c :: cs) = none) :
    (Parser.word measure).Refuses ts := by
  refine Parser.word_refuses hnil ?_
  intro t ht word tail hword _
  obtain ⟨c, cs, rfl, hopens⟩ := hword.opens
  exact h t c _ ht hopens

theorem literal_refuses {r : Rule} {value : Parser Lexeme} (h : value.Refuses ts) :
    (literal r value).Refuses ts :=
  (h.map _).located.rule r

theorem float_refuses (h : ∀ t c, ts.head? = some t → t.Opens c → c.isDigit = false) :
    float.Refuses ts :=
  literal_refuses ((word_refuses_of_front rfl fun t c cs ht hc =>
    Word.float_of_front (h t c ht hc) cs).map _)

theorem int_refuses (h : ∀ t c, ts.head? = some t → t.Opens c → c.isDigit = false) :
    int.Refuses ts :=
  literal_refuses ((word_refuses_of_front rfl fun t c cs ht hc =>
    Word.int_of_front (h t c ht hc) cs).map _)

theorem string_refuses (h : ∀ t c, ts.head? = some t → t.Opens c → c ≠ '"') :
    string.Refuses ts :=
  literal_refuses ((word_refuses_of_front rfl fun t c cs ht hc =>
    Word.string_of_front (h t c ht hc) cs).map _)

theorem literal_reads {r : Rule} {value : Parser Lexeme} {v : Literal} (loc : Location)
    (h : value.Reads [.literal v] (fun lexeme => lexeme.read? = some v) anything) :
    (literal r value).Reads [.literal v] (Expr.Denotes · (.literal loc v)) anything := by
  refine (located (h.map ?_)).rule r
  exact fun _ hread _ => .literal hread

theorem readSigned?_of_isDigits {cs : List Char} (h : IsDigits cs) {i : Int64}
    (hvalue : (digitsValue cs : Int) = i.toInt) : readSigned? cs = some i := by
  obtain ⟨c, rest, rfl, hc⟩ := h.cons
  have hhigh : i.toInt < signedBound := i.toInt_lt
  have hbound : digitsValue (c :: rest) < signedBound := by omega
  have hback : Int64.ofNat (digitsValue (c :: rest)) = i := by
    rw [← Int64.ofInt_eq_ofNat, hvalue, Int64.ofInt_toInt]
  have hdigits : readDigits? (c :: rest) = some (digitsValue (c :: rest)) := by
    rw [readDigits?, List.all_eq_true.mpr h.2]
    rfl
  rw [readSigned?, readSign_of_isDigit hc]
  simp only [hdigits, if_pos hbound, Bool.false_eq_true, if_false, hback]

theorem float_reads (loc : Location) (x : Double) :
    float.Reads [.literal (.float x)] (Expr.Denotes · (.literal loc (.float x))) anything := by
  have hword : (Parser.word Word.float).Reads [.literal (.float x)]
      (Terminal.literal (.float x)).Spells anything := by
    refine Parser.word_reads ?_
    rintro word tail ⟨whole, fraction, hwhole, hfraction, rfl, -⟩ htail
    exact Word.float_spells hwhole hfraction htail
  refine literal_reads loc (hword.map ?_)
  rintro cs ⟨-, -, -, -, -, hfinite, hread⟩
  rw [Lexeme.read?, String.toList_ofList, hread]
  exact if_pos hfinite

theorem int_reads (loc : Location) (i : Int64) :
    int.Reads [.literal (.int i)] (Expr.Denotes · (.literal loc (.int i))) anything := by
  have hword : (Parser.word Word.int).Reads [.literal (.int i)]
      (Terminal.literal (.int i)).Spells anything :=
    Parser.word_reads fun _ _ hdigits htail => Word.int_spells hdigits.1 htail.isDigit_head?
  refine literal_reads loc (hword.map ?_)
  rintro cs ⟨hdigits, hvalue⟩
  rw [Lexeme.read?, String.toList_ofList, readSigned?_of_isDigits hdigits hvalue]
  rfl

theorem string_reads (loc : Location) (text : String) :
    string.Reads [.literal (.str text)] (Expr.Denotes · (.literal loc (.str text))) anything := by
  have hword : (Parser.word Word.string).Reads [.literal (.str text)]
      (Terminal.literal (.str text)).Spells anything := by
    refine Parser.word_reads ?_
    rintro word tail rfl -
    exact Word.string_spells text tail
  refine literal_reads loc (hword.map ?_)
  rintro cs rfl
  rw [Lexeme.read?, Word.unescape_quoted]

theorem bool_reads (loc : Location) (b : Bool) :
    bool.Reads [.literal (.bool b)] (Expr.Denotes · (.literal loc (.bool b))) anything := by
  refine literal_reads loc ?_
  cases b with
  | true =>
    have htrue := @keyword_reads (.literal (.bool true)) .true rfl
    refine (htrue.map ?_).orElse _
    exact fun _ _ => rfl
  | false =>
    have hfalse := @keyword_reads (.literal (.bool false)) .false rfl
    refine orElse_right (fun _ _ => (keyword_refuses ?_).map _) (hfalse.map ?_)
    · intro h
      cases h
    · exact fun _ _ => rfl

theorem bool_refuses (htrue : ts.head?.bind Terminal.keyword? ≠ some .true)
    (hfalse : ts.head?.bind Terminal.keyword? ≠ some .false) : bool.Refuses ts :=
  literal_refuses (((keyword_refuses htrue).map _).orElse ((keyword_refuses hfalse).map _))

theorem name_reads (loc : Location) (x : String) :
    name.Reads [.name x] (Expr.Denotes · (.name loc x)) anything := by
  refine (ident_reads x).map ?_
  rintro y rfl
  exact .name

-- ---------------------------------------------------------------------------
-- Expressions
-- ---------------------------------------------------------------------------

/-- The terminals start with one of the marks. -/
def StartsWith (marks : List Mark) (ts : List Terminal) : Prop :=
  ∃ s ∈ marks, ts.head? = some (.mark s)

/-- What may follow an expression. -/
def ExprEnds : List Terminal → Prop :=
  StartsWith [.rightParen, .semicolon, .comma, .colon]

/-- What may follow a chain of operands. -/
def ChainEnds : List Terminal → Prop :=
  StartsWith [.rightParen, .semicolon, .comma, .colon, .question]

/-- The parser reads expressions in form that have at most `n` terminals. -/
def ReadsUpTo (n : Nat) (p : Parser (Expr Lexeme)) : Prop :=
  ∀ e : Expr Literal, e.InForm → e.terminals.length ≤ n →
    p.Reads e.terminals (Expr.Denotes · e) ExprEnds

variable {p : Parser (Expr Lexeme)} {n : Nat} {e : Expr Literal}

theorem group_reads (hp : ReadsUpTo n p) (loc : Location) (he : e.InForm)
    (hlength : e.terminals.length ≤ n) :
    (group p).Reads (Expr.group loc e).terminals (Expr.Denotes · (.group loc e)) anything := by
  have hinner := (symbol_reads .leftParen).seqRight (hp e he hlength) fun _ _ => trivial
  have hgroup : ∀ a : Expr Lexeme, a.Denotes e →
      ∀ loc', (Expr.group loc' a).Denotes (.group loc e) := fun _ ha _ => .group ha
  refine (located ((hinner.map hgroup).seqLeft (symbol_reads .rightParen) ?_)).rule _
  exact fun after _ => ⟨.rightParen, by decide, rfl⟩

/-- A whole number is not the start of a number with a point. -/
theorem float_refuses_int (i : Int64) : float.Refuses (.literal (.int i) :: ts) := by
  refine literal_refuses ((Parser.word_refuses rfl ?_).map _)
  rintro _ ⟨⟩ word tail hword htail
  exact Word.float_of_int hword.1 htail

/-- The terminals start neither like a number nor like a text in quotes. -/
def NoValue (ts : List Terminal) : Prop :=
  ∀ t c, ts.head? = some t → t.Opens c → c.isDigit = false ∧ c ≠ '"'

theorem NoValue.refused (h : NoValue ts) : float.Refuses ts ∧ int.Refuses ts ∧ string.Refuses ts :=
  ⟨float_refuses fun t c ht hc => (h t c ht hc).1, int_refuses fun t c ht hc => (h t c ht hc).1,
    string_refuses fun t c ht hc => (h t c ht hc).2⟩

/-- Numbers and texts in quotes are passed over. -/
theorem primary_of_noValue {P : Expr Lexeme → Prop} (hvalue : ∀ after, NoValue (ts ++ after))
    (h : (bool <|> name <|> group p).Reads ts P anything) : (primary p).Reads ts P anything := by
  refine orElse_right (fun after _ => (hvalue after).refused.1) ?_
  refine orElse_right (fun after _ => (hvalue after).refused.2.1) ?_
  exact orElse_right (fun after _ => (hvalue after).refused.2.2) h

theorem isDigit_and_quote_of_isAlpha {c : Char} (h : c.isAlpha) : c.isDigit = false ∧ c ≠ '"' := by
  refine ⟨isDigit_of_isAlpha h, ?_⟩
  rintro rfl
  cases h

theorem primary_reads (hp : ReadsUpTo n p) (he : e.InForm) (hprimary : e.IsPrimary)
    (hlength : e.terminals.length ≤ n + 1) :
    (primary p).Reads e.terminals (Expr.Denotes · e) anything := by
  cases e with
  | literal loc value =>
    cases value with
    | int i => exact orElse_right (fun _ _ => float_refuses_int i) ((int_reads loc i).orElse _)
    | float x => exact (float_reads loc x).orElse _
    | bool b =>
      refine primary_of_noValue ?_ ((bool_reads loc b).orElse _)
      rintro after _ c ⟨⟩ hc
      exact isDigit_and_quote_of_isAlpha hc
    | str text =>
      have hquote : ∀ after t c, ([Terminal.literal (.str text)] ++ after).head? = some t →
          t.Opens c → c.isDigit = false := by
        rintro after _ c ⟨⟩ rfl
        decide
      refine orElse_right (fun after _ => float_refuses (hquote after)) ?_
      refine orElse_right (fun after _ => int_refuses (hquote after)) ?_
      exact (string_reads loc text).orElse _
  | name loc x =>
    refine primary_of_noValue ?_ ?_
    · rintro after _ c ⟨⟩ (hc | rfl)
      · exact isDigit_and_quote_of_isAlpha hc
      · decide
    · exact orElse_right (fun _ _ => bool_refuses nofun nofun) ((name_reads loc x).orElse _)
  | group loc inner =>
    refine primary_of_noValue ?_ ?_
    · rintro after _ c ⟨⟩ rfl
      decide
    · have hname : ∀ after, name.Refuses ((Expr.group loc inner).terminals ++ after) := by
        refine fun after => (ident_refuses ?_).map _
        intro x hx
        cases hx
      refine orElse_right (fun _ _ => bool_refuses nofun nofun) ?_
      refine orElse_right (fun after _ => hname after) ?_
      refine group_reads hp loc he ?_
      simp only [Expr.terminals, List.length_cons, List.length_append] at hlength
      omega
  | _ => exact hprimary.elim

/-- No unary operator stands in front. -/
def NoUnaryOp (ts : List Terminal) : Prop :=
  ∀ s op, ts.head? = some (.mark s) → s.front ≠ (Mark.unary op).front

theorem noUnaryOp_of_isPrimary (h : e.IsPrimary) (after : List Terminal) :
    NoUnaryOp (e.terminals ++ after) := by
  intro s op hs
  cases e with
  | literal => cases hs
  | name => cases hs
  | group =>
    cases hs
    cases op <;> decide
  | _ => exact h.elim

/-- The operators in front of an operand are read up to where none follows. -/
theorem signs_rounds (signs : List UnaryOp) :
    anyUnaryOp.Rounds signs (fun op => [.mark (.unary op)]) (fun op r => r.1 = op) anything
      NoUnaryOp where
  reads := fun op _ => anyUnaryOp_reads op
  nonempty := fun _ _ => List.cons_ne_nil _ _
  goesOn := fun _ _ _ => trivial
  ends := fun _ _ => trivial
  stops := fun _ hafter => anyUnaryOp_refuses hafter

theorem operand_reads (hp : ReadsUpTo n p) (he : e.IsOperand)
    (hlength : e.terminals.length ≤ n + 1) :
    (operand p).Reads e.terminals (Expr.Denotes · e) anything := by
  obtain ⟨hcore, hprimary⟩ := Expr.core_inForm he.1 he.2
  rw [Expr.terminals_operand] at hlength ⊢
  rw [List.length_append] at hlength
  have hoperand : ∀ ops, List.Forall₂ (fun op (r : UnaryOp × Location) => r.1 = op) e.signs ops →
      ∀ a : Expr Lexeme, a.Denotes e.core → (Expr.ofOperand ops a).Denotes e :=
    fun _ hops _ ha => Expr.denotes_ofOperand hops ha
  have hprim := primary_reads hp hcore hprimary (by omega)
  exact ((signs_rounds e.signs).many.map hoperand).seq hprim fun after _ =>
    noUnaryOp_of_isPrimary hprimary after

theorem ChainEnds.refused {after : List Terminal} (h : ChainEnds after) :
    anyBinaryOp.Refuses after := by
  obtain ⟨s, hs, hafter⟩ := h
  refine anyBinaryOp_refuses fun s' op hs' => ?_
  rw [hafter] at hs'
  cases hs'
  have hall : ∀ s ∈ [Mark.rightParen, .semicolon, .comma, .colon, .question],
      s.front ∉ BinaryOp.all.map fun op => (Mark.binary op).front := by
    decide
  intro hfront
  exact hall s hs (hfront ▸ List.mem_map_of_mem (by cases op <;> decide))

/-- A link of a chain: an operator and the operand behind it. -/
theorem link_reads (hp : ReadsUpTo n p) {link : BinaryOp × Expr Literal}
    (hlink : link.2.IsOperand) (hlength : link.2.terminals.length ≤ n + 1) :
    (Prod.mk <$> anyBinaryOp <*> operand p).Reads (Expr.linkTerminals link) (Expr.LinkDenotes link)
      anything := by
  have hpair : ∀ op, op = link.1 → ∀ a : Expr Lexeme, a.Denotes link.2 →
      Expr.LinkDenotes link (op, a) := fun _ hop _ ha => ⟨hop, ha⟩
  exact ((anyBinaryOp_reads link.1).map hpair).seq (operand_reads hp hlink hlength)
    fun _ _ => trivial

theorem binary_reads (hp : ReadsUpTo n p) (he : e.InForm) (htight : 0 < e.tightness)
    (hlength : e.terminals.length ≤ n + 1) :
    (binary p).Reads e.terminals (Expr.Denotes · e) ChainEnds := by
  obtain ⟨hfirst, hmore⟩ := Expr.isOperand_of_chain he htight
  rw [Expr.terminals_chain] at hlength ⊢
  rw [List.length_append] at hlength
  have hlinks : (Prod.mk <$> anyBinaryOp <*> operand p).Rounds e.more Expr.linkTerminals
      Expr.LinkDenotes anything ChainEnds :=
    { reads := by
        intro link hlink
        refine link_reads hp (hmore link hlink) ?_
        obtain ⟨before, after, hsplit⟩ := List.append_of_mem hlink
        rw [hsplit] at hlength
        simp only [List.flatMap_append, List.flatMap_cons, Expr.linkTerminals, List.length_append,
          List.length_cons] at hlength
        omega
      nonempty := fun _ _ => List.cons_ne_nil _ _
      goesOn := fun _ _ _ => trivial
      ends := fun _ _ => trivial
      stops := fun _ hafter => (hafter.refused.map _).seq _ }
  have hchain : ∀ a : Expr Lexeme, a.Denotes e.first → ∀ links,
      List.Forall₂ Expr.LinkDenotes e.more links → (Expr.ofChain a links).Denotes e :=
    fun _ ha _ hlinks => Expr.denotes_ofChain he ha hlinks
  have hoperand := operand_reads hp hfirst (by omega)
  exact ((hoperand.map hchain).seq hlinks.many fun _ _ => trivial).rule _

theorem ExprEnds.chainEnds {after : List Terminal} (h : ExprEnds after) : ChainEnds after := by
  obtain ⟨s, hs, hafter⟩ := h
  exact ⟨s, List.mem_append_left [Mark.question] hs, hafter⟩

theorem ternary_reads_chain (hp : ReadsUpTo n p) (he : e.InForm) (htight : 0 < e.tightness)
    (hlength : e.terminals.length ≤ n + 1) :
    (ternary p).Reads e.terminals (Expr.Denotes · e) ExprEnds := by
  have hquestion : ∀ after, ExprEnds after → (symbol "?" *> p).Refuses after := by
    rintro after ⟨s, hs, hafter⟩
    refine (symbol_refuses .question fun s' hs' => ?_).seqRight p
    rw [hafter] at hs'
    cases hs'
    have hall : ∀ s ∈ [Mark.rightParen, .semicolon, .comma, .colon],
        s.front ≠ Mark.question.front := by
      decide
    exact hall s hs
  have hnone := optional_none fun after hafter =>
    ((hquestion after hafter).map Prod.mk).seq (symbol ":" *> p)
  have hchain := binary_reads hp he htight hlength
  rw [← List.append_nil e.terminals]
  refine (located ((hchain.map ?_).seq hnone fun _ hafter => hafter.chainEnds)).rule _
  rintro a ha _ rfl loc
  exact ha

theorem ternary_reads (hp : ReadsUpTo n p) {loc : Location} {cond onTrue onFalse : Expr Literal}
    (he : (Expr.ternary loc cond onTrue onFalse).InForm)
    (hlength : (Expr.ternary loc cond onTrue onFalse).terminals.length ≤ n + 1) :
    (ternary p).Reads (Expr.ternary loc cond onTrue onFalse).terminals
      (Expr.Denotes · (.ternary loc cond onTrue onFalse)) ExprEnds := by
  obtain ⟨htight, hcond, htrue, hfalse⟩ := he
  simp only [Expr.terminals, List.length_append, List.length_cons] at hlength
  have hcond' := binary_reads hp hcond htight (by omega)
  have htrue' := (symbol_reads .question).seqRight (hp onTrue htrue (by omega)) fun _ _ => trivial
  have hfalse' := (symbol_reads .colon).seqRight (hp onFalse hfalse (by omega)) fun _ _ => trivial
  have hbranches : (Prod.mk <$> (symbol "?" *> p) <*> (symbol ":" *> p)).Reads
      (([.mark .question] ++ onTrue.terminals) ++ ([.mark .colon] ++ onFalse.terminals))
      (fun branches => branches.1.Denotes onTrue ∧ branches.2.Denotes onFalse) ExprEnds :=
    (htrue'.map fun _ ha _ hb => ⟨ha, hb⟩).seq hfalse' fun _ _ => ⟨.colon, by decide, rfl⟩
  refine (located ((hcond'.map ?_).seq hbranches.optional ?_)).rule _
  · rintro a ha _ ⟨branches, rfl, htrue, hfalse⟩ loc
    exact .ternary ha htrue hfalse
  · exact fun _ _ => ⟨.question, by decide, rfl⟩

theorem assignment_reads (hp : ReadsUpTo n p) {loc : Location} {target : Ident}
    {value : Expr Literal} (he : value.InForm) (hlength : value.terminals.length ≤ n) :
    (assignment p).Reads (Expr.assign loc target value).terminals
      (Expr.Denotes · (.assign loc target value)) ExprEnds := by
  have hvalue := hp value he hlength
  refine (located ((((ident_reads target.name).map ?_).seqLeft assignOp_reads fun _ _ => trivial).seq
    hvalue fun _ _ => trivial)).rule _
  exact fun _ hx _ ha _ => .assign hx ha

/-- The terminals do not start with a name that is given a value. -/
def NoAssignment (ts : List Terminal) : Prop :=
  ∀ x rest, ts = .name x :: rest → rest.head? ≠ some (.mark .assign)

theorem assignment_refuses (h : NoAssignment ts) : (assignment p).Refuses ts := by
  refine ((Parser.Refuses.seq ?_ p).located).rule _
  by_cases hname : ∃ x rest, ts = .name x :: rest
  · obtain ⟨x, rest, rfl⟩ := hname
    exact .seqLeft_of_reads ((ident_reads x).map (Q := fun _ => True) fun _ _ => trivial) trivial
      (assignOp_refuses (h x rest rfl))
  · refine ((ident_refuses ?_).map _).seqLeft _
    rintro x hx
    obtain ⟨rest, rfl⟩ := List.head?_eq_some_iff.mp hx
    exact hname ⟨x, rest, rfl⟩

/-- Only an assignment starts with a name that is given a value. -/
theorem noAssignment_terminals (he : e.InForm) (hassign : ∀ loc x value, e ≠ .assign loc x value)
    {after : List Terminal} (hafter : after.head? ≠ some (.mark .assign)) :
    NoAssignment (e.terminals ++ after) := by
  have htight : ∀ {e : Expr Literal}, 0 < e.tightness → ∀ loc x value, e ≠ .assign loc x value := by
    rintro e h loc x value rfl
    cases h
  induction e generalizing after with
  | literal => exact fun _ _ h => by cases h
  | name =>
    intro x rest h
    cases h
    exact hafter
  | group => exact fun _ _ h => by cases h
  | unary => exact fun _ _ h => by cases h
  | binary loc op left right ihl ihr =>
    rw [Expr.terminals, List.append_assoc]
    exact ihl he.2.2.1 (htight (by have := he.1; omega)) (by simp)
  | assign loc x value => exact absurd rfl (hassign loc x value)
  | ternary loc cond onTrue onFalse ihc =>
    rw [Expr.terminals, List.append_assoc]
    exact ihc he.2.1 (htight he.1) (by simp)

theorem terminals_pos (e : Expr Literal) : 0 < e.terminals.length := by
  cases e <;> simp only [Expr.terminals, List.length_append, List.length_cons] <;> omega

/-- **Expressions read back.** -/
theorem expr_reads (n : Nat) : ReadsUpTo n (expr n) := by
  induction n with
  | zero =>
    intro e _ hlength
    have := terminals_pos e
    omega
  | succ n ih =>
    intro e he hlength
    refine Parser.Reads.rule (p := assignment (expr n) <|> ternary (expr n)) ?_ .expr
    by_cases hassign : ∃ loc x value, e = .assign loc x value
    · obtain ⟨loc, x, value, rfl⟩ := hassign
      simp only [Expr.terminals, List.length_cons] at hlength
      exact (assignment_reads ih he.2 (by omega)).orElse _
    · have hno : ∀ after, ExprEnds after → (assignment (expr n)).Refuses (e.terminals ++ after) := by
        rintro after ⟨s, hs, hafter⟩
        refine assignment_refuses (noAssignment_terminals he ?_ ?_)
        · rintro loc x value rfl
          exact hassign ⟨loc, x, value, rfl⟩
        · rw [hafter]
          rintro ⟨⟩
          exact absurd hs (by decide)
      refine orElse_right hno ?_
      cases e with
      | assign loc x value => exact absurd ⟨loc, x, value, rfl⟩ hassign
      | ternary => exact ternary_reads ih he hlength
      | binary => exact ternary_reads_chain ih he (Nat.succ_pos _) hlength
      | _ => exact ternary_reads_chain ih he (Nat.succ_pos 6) hlength

/-- The terminals do not start like an expression. -/
structure NoExpr (ts : List Terminal) : Prop where
  value : NoValue ts
  keyword : ∀ k, ts.head?.bind Terminal.keyword? ≠ some k
  name : ∀ x, ts.head? ≠ some (.name x)
  paren : ∀ s, ts.head? = some (.mark s) → s.front ≠ Mark.leftParen.front
  unaryOp : NoUnaryOp ts

theorem expr_refuses (h : NoExpr ts) (n : Nat) : (expr n).Refuses ts := by
  cases n with
  | zero => exact fun _ _ => rfl
  | succ n =>
    have hassign : NoAssignment ts := by
      rintro x rest rfl
      exact absurd rfl (h.name x)
    have hgroup : (group (expr n)).Refuses ts :=
      (((((symbol_refuses .leftParen h.paren).seqRight _).map _).seqLeft _).located).rule _
    have hprimary : (primary (expr n)).Refuses ts :=
      .orElse h.value.refused.1 <| .orElse h.value.refused.2.1 <| .orElse h.value.refused.2.2 <|
        .orElse (bool_refuses (h.keyword _) (h.keyword _)) <|
        .orElse ((ident_refuses h.name).map _) hgroup
    have hoperand : (operand (expr n)).Refuses ts := by
      have hsigns := (signs_rounds []).many
      exact .seq_of_reads (hsigns.map (Q := fun _ => True) fun _ _ => trivial) h.unaryOp hprimary
    have hternary : (ternary (expr n)).Refuses ts :=
      ((((((hoperand.map _).seq _).rule .binary).map _).seq _).located).rule _
    exact ((assignment_refuses hassign).orElse hternary).rule .expr

end Grammar

end Cairn
