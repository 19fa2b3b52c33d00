import Cairn.Proofs.Reports
import Cairn.Proofs.Tokens

/-!
# Cairn — tokens and spans

The tokens of a text are found without the grammar, and with each of them the bytes that
it takes up. So it can be asked how the span of a construct, a statement, an expression or
a name, lies among them. It always starts with the first token of the construct, and
mostly ends with the last one.

Assignments, choices and statements that end in an `if` without `else` are loose: their
spans go on to the end of the gap behind the last token, which is where the next token
starts. An operator binds its operands tighter than either of the first two, and so a
loose expression is never the last part of a tight one without parentheses between them.

## Main definitions

* `tokensAt`  — the tokens of a text, and where they stand.
* `Construct` — the statements, expressions and names of a program.
* `Construct.Fits` — the span of a construct among the tokens of a text.

## Main statements

* `Expr.Covers.fits_tokens`, `Stmt.Covers.fits_tokens` — what covers a text fits its tokens.
* `Program.spans_fit_tokens` — the constructs and the diagnostics of parsed programs.
-/

namespace Cairn

-- ---------------------------------------------------------------------------
-- Tokens where they stand
-- ---------------------------------------------------------------------------

/-- A token, and the bytes that it takes up. -/
structure TokenAt where
  token : Token
  span : Span
deriving DecidableEq

/-- Fewer than `n` tokens, which are all there are, each behind a gap. -/
def tokensAtBelow : Nat → Cursor → Option (List TokenAt)
  | 0, _ => none
  | n + 1, c =>
    if c.skipGap.rest.isEmpty then some []
    else (Word.token? c.skipGap.rest).bind fun r =>
      (tokensAtBelow n (c.skipGap.advance r.2)).map
        (⟨r.1, (c.skipGap.upTo (c.skipGap.advance r.2)).span⟩ :: ·)

/-- The tokens of a text, and where they stand. -/
def tokensAt (source : String) : Option (List TokenAt) :=
  tokensAtBelow (source.toList.length + 1) (.ofChars source.toList)

theorem tokensAtBelow_tokens (n : Nat) (c : Cursor) :
    (tokensAtBelow n c).map (List.map TokenAt.token) = tokensBelow n c.rest := by
  induction n generalizing c with
  | zero => rfl
  | succ n ih =>
    rw [tokensBelow_succ, tokensAtBelow]
    by_cases hempty : c.skipGap.rest.isEmpty = true
    · rw [if_pos hempty, if_pos hempty]
      rfl
    · rw [if_neg hempty, if_neg hempty]
      cases htoken : Word.token? c.skipGap.rest with
      | none => rfl
      | some r =>
        rw [Option.bind_some, Option.bind_some, Option.map_map, ← Cursor.rest_advance, ← ih,
          Option.map_map]
        rfl

/-- Where the tokens stand does not change what they are. -/
theorem tokensAt_tokens (source : String) :
    (tokensAt source).map (List.map TokenAt.token) = tokens source.toList :=
  tokensAtBelow_tokens _ _

/-- The tokens stand one behind the other from the first cursor on, each behind a gap, and
the last of them ends at the second cursor. -/
def LaidOut : List TokenAt → Cursor → Cursor → Prop
  | [], c, d => d = c
  | t :: ts, c, d =>
    ∃ n, Word.token? c.skipGap.rest = some (t.token, n) ∧
      t.span = (c.skipGap.upTo (c.skipGap.advance n)).span ∧ LaidOut ts (c.skipGap.advance n) d

theorem laidOut_of_tokensAtBelow {n : Nat} {c : Cursor} {all : List TokenAt}
    (h : tokensAtBelow n c = some all) : ∃ d, LaidOut all c d ∧ d.skipGap.rest = [] := by
  induction n generalizing c all with
  | zero => cases h
  | succ n ih =>
    rw [tokensAtBelow] at h
    split at h
    · next hempty =>
      cases h
      exact ⟨c, rfl, List.isEmpty_iff.mp hempty⟩
    · obtain ⟨r, htoken, hrest⟩ := Option.bind_eq_some_iff.mp h
      obtain ⟨rest, hbelow, rfl⟩ := Option.map_eq_some_iff.mp hrest
      obtain ⟨d, hlaid, hend⟩ := ih hbelow
      exact ⟨d, ⟨r.2, htoken, rfl, hlaid⟩, hend⟩

namespace LaidOut

variable {ts us all : List TokenAt} {c c' d e : Cursor}

theorem append (h : LaidOut ts c d) (h' : LaidOut us d e) : LaidOut (ts ++ us) c e := by
  induction ts generalizing c with
  | nil =>
    cases h
    exact h'
  | cons t ts ih =>
    obtain ⟨n, htoken, hspan, hts⟩ := h
    exact ⟨n, htoken, hspan, ih hts⟩

theorem precedes (h : LaidOut ts c d) : c.Precedes d := by
  induction ts generalizing c with
  | nil =>
    obtain rfl : d = c := h
    exact .refl d
  | cons t ts ih =>
    obtain ⟨n, -, -, hts⟩ := h
    exact c.precedes_skipGap.trans ((c.skipGap.precedes_advance n).trans (ih hts))

/-- Where the next token starts, or else the text ends, is the end of the gap. -/
theorem head_start (h : LaidOut ts c d) :
    (ts.head?.map (·.span.start)).getD d.skipGap.offset = c.skipGap.offset := by
  cases ts with
  | nil =>
    cases h
    rfl
  | cons t ts =>
    obtain ⟨n, -, hspan, -⟩ := h
    exact congrArg Span.start hspan

/-- All the tokens of a text start with those that are found first. -/
theorem cut (h : LaidOut ts c d) (hall : LaidOut all c' e) (hc : c.skipGap = c'.skipGap)
    (hend : e.skipGap.rest = []) :
    ∃ us d', all = ts ++ us ∧ LaidOut us d' e ∧ d'.skipGap = d.skipGap := by
  induction ts generalizing c c' all with
  | nil =>
    cases h
    exact ⟨all, c', rfl, hall, hc.symm⟩
  | cons t ts ih =>
    obtain ⟨n, htoken, hspan, hts⟩ := h
    cases all with
    | nil =>
      cases hall
      rw [hc, hend] at htoken
      exact absurd List.take_nil (Word.take_ne_nil_of_token? htoken)
    | cons u us =>
      obtain ⟨m, hfirst, hplace, hus⟩ := hall
      rw [hc, hfirst] at htoken
      obtain ⟨htoken, rfl⟩ := Prod.mk.inj (Option.some.inj htoken)
      rw [hc] at hspan hts
      obtain ⟨after, d', rfl, hafter, hd⟩ := ih hts hus rfl
      obtain rfl : t = u := by
        cases t
        cases u
        cases htoken
        cases hspan.trans hplace.symm
        rfl
      exact ⟨after, d', rfl, hafter, hd⟩

end LaidOut

theorem Lexes.laidOut {ts : List Terminal} {c d : Cursor} (h : Lexes ts c d) :
    ∃ us d', us.map TokenAt.token = ts.map Terminal.token ∧ LaidOut us c d' ∧
      d'.skipGap = d.skipGap := by
  induction ts generalizing c with
  | nil => exact ⟨[], c, rfl, rfl, h⟩
  | cons t ts ih =>
    obtain ⟨n, htoken, hts⟩ := h
    obtain ⟨us, d', htokens, hus, hd⟩ := ih hts
    exact ⟨⟨t.token, _⟩ :: us, d', congrArg _ htokens, ⟨n, htoken, rfl, hus⟩, hd⟩

/-- What fills a stretch of text is laid out there, and its last token ends with the
stretch or in front of the gap at its end. -/
theorem Fills.laidOut {ts : List Terminal} {loose : Prop} {c d : Cursor} (h : Fills ts loose c d) :
    ∃ us last d', (us ++ [last]).map TokenAt.token = ts.map Terminal.token ∧
      LaidOut (us ++ [last]) c d' ∧ last.span.stop = d'.offset ∧
      (¬loose → d = d') ∧ (loose → d = d'.skipGap) := by
  obtain ⟨init, t, c', n, rfl, hinit, htoken, htight, hloose⟩ := h
  obtain ⟨us, x, htokens, hus, hx⟩ := hinit.laidOut
  rw [← hx] at htoken htight hloose
  have hlast : LaidOut [⟨t.token, (x.skipGap.upTo (x.skipGap.advance n)).span⟩] x
      (x.skipGap.advance n) := ⟨n, htoken, rfl, rfl⟩
  refine ⟨us, _, _, ?_, hus.append hlast, rfl, htight, hloose⟩
  rw [List.map_append, List.map_append, htokens]
  rfl

-- ---------------------------------------------------------------------------
-- Constructs
-- ---------------------------------------------------------------------------

/-- What a program is made of, above its tokens. -/
inductive Construct where
  | statement (s : Stmt Literal)
  | expression (e : Expr Literal)
  | name (x : Ident)

namespace Construct

def loc : Construct → Location
  | .statement s => s.loc
  | .expression e => e.loc
  | .name x => x.loc

@[simp] theorem loc_statement (s : Stmt Literal) : (statement s).loc = s.loc := rfl

@[simp] theorem loc_expression (e : Expr Literal) : (expression e).loc = e.loc := rfl

@[simp] theorem loc_name (x : Ident) : (name x).loc = x.loc := rfl

/-- The tokens of the construct, from left to right. -/
def tokens : Construct → List Token
  | .statement s => s.terminals.map Terminal.token
  | .expression e => e.terminals.map Terminal.token
  | .name x => [.name x.name]

/-- Assignments, choices, and statements that end in an `if` without `else`. -/
def IsLoose : Construct → Prop
  | .statement s => s.EndsOpen
  | .expression e => e.tightness = 0
  | .name _ => False

/-- The tokens are those of the construct, and its span starts with the first of them. -/
def StandsAs (k : Construct) (own : List TokenAt) : Prop :=
  own.map TokenAt.token = k.tokens ∧ own.head?.map (·.span.start) = some k.loc.span.start

/-- The span of the construct ends with its last token. -/
def EndsTight (k : Construct) (all : List TokenAt) : Prop :=
  ∃ before own after, all = before ++ own ++ after ∧ k.StandsAs own ∧
    own.getLast?.map (·.span.stop) = some k.loc.span.stop

/-- The span of the construct ends where the next token starts or, if there is none, where
the text of `size` bytes ends. -/
def EndsLoose (k : Construct) (all : List TokenAt) (size : Nat) : Prop :=
  ∃ before own after, all = before ++ own ++ after ∧ k.StandsAs own ∧
    k.loc.span.stop = (after.head?.map (·.span.start)).getD size

/-- The span of the construct, as its kind has it. -/
def Fits (k : Construct) (all : List TokenAt) (size : Nat) : Prop :=
  (¬k.IsLoose → k.EndsTight all) ∧ (k.IsLoose → k.EndsLoose all size)

end Construct

/-- The expression, and the expressions and names in it. -/
def Expr.constructs : Expr Literal → List Construct
  | .literal loc value => [.expression (.literal loc value)]
  | .name loc x => [.expression (.name loc x)]
  | .group loc inner => .expression (.group loc inner) :: inner.constructs
  | .unary loc op operand => .expression (.unary loc op operand) :: operand.constructs
  | .binary loc op left right =>
    .expression (.binary loc op left right) :: (left.constructs ++ right.constructs)
  | .assign loc target value =>
    .expression (.assign loc target value) :: .name target :: value.constructs
  | .ternary loc cond onTrue onFalse =>
    .expression (.ternary loc cond onTrue onFalse) ::
      (cond.constructs ++ (onTrue.constructs ++ onFalse.constructs))

namespace Stmt

mutual

/-- The statement, and all that is in it. -/
def constructs : Stmt Literal → List Construct
  | .empty loc => [.statement (.empty loc)]
  | .declaration loc ty names => .statement (.declaration loc ty names) :: names.map .name
  | .expression loc e => .statement (.expression loc e) :: e.constructs
  | .read loc names => .statement (.read loc names) :: names.map .name
  | .write loc exprs => .statement (.write loc exprs) :: exprs.flatMap Expr.constructs
  | .block loc body => .statement (.block loc body) :: constructsAll body
  | .ifThen loc cond onTrue =>
    .statement (.ifThen loc cond onTrue) :: (cond.constructs ++ onTrue.constructs)
  | .ifElse loc cond onTrue onFalse =>
    .statement (.ifElse loc cond onTrue onFalse) ::
      (cond.constructs ++ (onTrue.constructs ++ onFalse.constructs))
  | .whileDo loc cond body =>
    .statement (.whileDo loc cond body) :: (cond.constructs ++ body.constructs)
  | .doWhile loc body cond =>
    .statement (.doWhile loc body cond) :: (body.constructs ++ cond.constructs)

/-- The statements, and all that is in them. -/
def constructsAll : List (Stmt Literal) → List Construct
  | [] => []
  | s :: rest => s.constructs ++ constructsAll rest

end

end Stmt

/-- Operators leave no loose expression at their right. -/
theorem Expr.Grouped.endsOpen_iff {L : Type} {e : Expr L} (h : e.Grouped) :
    e.EndsOpen ↔ e.tightness = 0 := by
  induction e with
  | unary loc op operand ih =>
    have htight : operand.tightness ≠ 0 := Nat.ne_of_gt (Nat.lt_of_lt_of_le (by decide) h.1)
    exact ⟨fun hopen => absurd ((ih h.2).mp hopen) htight, by rintro ⟨⟩⟩
  | binary loc op left right ihl ihr =>
    have htight : right.tightness ≠ 0 := Nat.ne_of_gt (Nat.lt_of_lt_of_le (by simp) h.2.1)
    exact ⟨fun hopen => absurd ((ihr h.2.2).mp hopen) htight, by rintro ⟨⟩⟩
  | assign loc target value ih => exact iff_of_true trivial rfl
  | ternary loc cond onTrue onFalse => exact iff_of_true trivial rfl
  | _ => exact iff_of_false not_false (by rintro ⟨⟩)

-- ---------------------------------------------------------------------------
-- What covers a text fits its tokens
-- ---------------------------------------------------------------------------

/-- The tokens in front of the cursor are found from the start of the text, and the gap
behind them is skipped. -/
def Reached (source : String) (c : Cursor) : Prop :=
  ∃ before d, LaidOut before (.ofChars source.toList) d ∧ c = d.skipGap

namespace Reached

variable {source : String} {c d : Cursor}

theorem ready (h : Reached source c) : c.Ready := by
  obtain ⟨before, x, -, rfl⟩ := h
  exact x.ready_skipGap

theorem start (source : String) : Reached source (Cursor.ofChars source.toList).skipGap :=
  ⟨[], _, rfl, rfl⟩

/-- Further tokens lead further on. -/
theorem lexes {ts : List Terminal} (h : Reached source c) (hts : Lexes ts c d) :
    Reached source d.skipGap := by
  obtain ⟨before, x, hbefore, rfl⟩ := h
  obtain ⟨us, d', -, hus, hd⟩ := (hts.congr x.skipGap_skipGap).laidOut
  exact ⟨before ++ us, d', hbefore.append hus, hd.symm⟩

theorem fills {ts : List Terminal} {loose : Prop} (h : Reached source c)
    (hts : Fills ts loose c d) : Reached source d.skipGap :=
  h.lexes hts.lexes

/-- **A construct fits the tokens of the text** if its own tokens fill its span. -/
theorem fits (h : Reached source c) {all : List TokenAt} (hall : tokensAt source = some all)
    {k : Construct} {ts : List Terminal} (hk : k.tokens = ts.map Terminal.token)
    (hts : Fills ts k.IsLoose c d) (hloc : k.loc = c.upTo d) :
    k.Fits all (utf8Length source.toList) := by
  obtain ⟨before, x, hbefore, rfl⟩ := h
  obtain ⟨e, hlaid, hend⟩ := laidOut_of_tokensAtBelow hall
  obtain ⟨us, last, d', htokens, hown, hstop, htight, hloose⟩ := hts.laidOut
  obtain ⟨rest, x', rfl, hrest, hx⟩ := hbefore.cut hlaid rfl hend
  obtain ⟨after, y, rfl, hafter, hy⟩ :=
    hown.cut hrest (x.skipGap_skipGap.trans hx.symm) hend
  have hstart : (us ++ [last]).head?.map (·.span.start) = some k.loc.span.start := by
    have hhead := hown.head_start
    rw [x.skipGap_skipGap] at hhead
    rw [hloc]
    cases us <;> exact congrArg some hhead
  have hstands : k.StandsAs (us ++ [last]) := ⟨htokens.trans hk.symm, hstart⟩
  refine ⟨fun hk => ⟨before, us ++ [last], after, by simp, hstands, ?_⟩,
    fun hk => ⟨before, us ++ [last], after, by simp, hstands, ?_⟩⟩
  · rw [List.getLast?_concat, hloc, htight hk]
    exact congrArg some hstop
  · have hsize : e.skipGap.offset = utf8Length source.toList := by
      have hadd := hlaid.precedes.skipGap.offset_add
      rw [hend] at hadd
      simpa [utf8Length, Cursor.offset, Cursor.ofChars] using hadd
    have hnext := hafter.head_start
    rw [hsize, hy] at hnext
    rw [hloc, hloose hk, hnext]
    rfl

end Reached

open Grammar

section

variable {source : String} {all : List TokenAt}

theorem Ident.Covers.fits_tokens {x : Ident} {c d : Cursor} (h : x.Covers c d)
    (hc : Reached source c) (hall : tokensAt source = some all) :
    (Construct.name x).Fits all (utf8Length source.toList) :=
  hc.fits hall rfl (h.fills hc.ready) h.run_word.1

/-- What holds of whatever is read where tokens end holds of all that is in a list. -/
theorem Listed.forall_reached {α : Type} {R : α → Cursor → Cursor → Prop} {P : α → Prop}
    {f : α → List Terminal} (hlexes : ∀ a c d, c.Ready → R a c d → Lexes (f a) c d)
    (hR : ∀ a c d, Reached source c → R a c d → P a) {as : List α} {c d : Cursor}
    (h : Listed R as c d) (hc : Reached source c) : ∀ a ∈ as, P a := by
  induction h with
  | one ha => exact List.forall_mem_singleton.mpr (hR _ _ _ hc ha)
  | @more a rest c c₁ c₂ d ha hcomma _ ih =>
    have hfirst := hc.lexes (hlexes a c c₁ hc.ready ha)
    have hnext := hfirst.fills (symbol_fills .comma rfl hfirst.ready hcomma)
    exact List.forall_mem_cons.mpr ⟨hR a c c₁ hc ha, ih hnext⟩

theorem Listed.fits_tokens_names {names : List Ident} {c d : Cursor}
    (h : Listed Ident.Covers names c d) (hc : Reached source c)
    (hall : tokensAt source = some all) :
    ∀ k ∈ names.map Construct.name, k.Fits all (utf8Length source.toList) := by
  refine List.forall_mem_map.mpr ?_
  exact Listed.forall_reached (fun _ _ _ hc hx => (hx.fills hc).lexes)
    (fun _ _ _ hc hx => hx.fits_tokens hc hall) h hc

theorem Expr.Covers.self_fits_tokens {e : Expr Literal} {c d : Cursor}
    (h : e.Covers Literal.IsValueOf c d) (hc : Reached source c)
    (hall : tokensAt source = some all) (hgrouped : e.Grouped) :
    (Construct.expression e).Fits all (utf8Length source.toList) := by
  refine hc.fits hall rfl ?_ h.loc_eq
  rw [Construct.IsLoose, ← hgrouped.endsOpen_iff]
  exact h.fills hc.ready

/-- **Expressions fit the tokens of the text**, with all that is in them. -/
theorem Expr.Covers.fits_tokens {e : Expr Literal} {c d : Cursor}
    (h : e.Covers Literal.IsValueOf c d) (hc : Reached source c)
    (hall : tokensAt source = some all) (hgrouped : e.Grouped) :
    ∀ k ∈ e.constructs, k.Fits all (utf8Length source.toList) := by
  -- a part starts where the tokens of the parts and words in front of it end
  induction e generalizing c d with
  | literal loc value => exact List.forall_mem_singleton.mpr (h.self_fits_tokens hc hall hgrouped)
  | name loc x => exact List.forall_mem_singleton.mpr (h.self_fits_tokens hc hall hgrouped)
  | group loc inner ih =>
    refine List.forall_mem_cons.mpr ⟨h.self_fits_tokens hc hall hgrouped, ?_⟩
    obtain ⟨-, c₁, c₂, hopen, hinner, -⟩ := h
    exact ih hinner (hc.fills (symbol_fills .leftParen rfl hc.ready hopen)) hgrouped
  | unary loc op operand ih =>
    refine List.forall_mem_cons.mpr ⟨h.self_fits_tokens hc hall hgrouped, ?_⟩
    obtain ⟨-, c₁, hop, hoperand⟩ := h
    exact ih hoperand (hc.fills (unaryOp_fills hc.ready hop)) hgrouped.2
  | binary loc op left right ihl ihr =>
    refine List.forall_mem_cons.mpr ⟨h.self_fits_tokens hc hall hgrouped, ?_⟩
    obtain ⟨-, c₁, c₂, hleft, hop, hright⟩ := h
    have hc₁ := hc.fills (hleft.fills hc.ready)
    have hc₂ := hc₁.fills (binaryOp_fills hc₁.ready hop)
    exact List.forall_mem_append.mpr ⟨ihl hleft hc hgrouped.1.2, ihr hright hc₂ hgrouped.2.2⟩
  | assign loc target value ih =>
    refine List.forall_mem_cons.mpr ⟨h.self_fits_tokens hc hall hgrouped, ?_⟩
    obtain ⟨-, c₁, c₂, c₃, htarget, hop, hvalue, -⟩ := h
    have hc₁ := hc.fills (htarget.fills hc.ready)
    have hc₂ := hc₁.fills (assignOp_fills hc₁.ready hop)
    exact List.forall_mem_cons.mpr ⟨htarget.fits_tokens hc hall, ih hvalue hc₂ hgrouped⟩
  | ternary loc cond onTrue onFalse ihc iht ihf =>
    refine List.forall_mem_cons.mpr ⟨h.self_fits_tokens hc hall hgrouped, ?_⟩
    obtain ⟨-, c₁, c₂, c₃, c₄, c₅, hcond, hmark, htrue, hcolon, hfalse, -⟩ := h
    have hc₁ := hc.fills (hcond.fills hc.ready)
    have hc₂ := hc₁.fills (symbol_fills .question rfl hc₁.ready hmark)
    have hc₃ := hc₂.fills (htrue.fills hc₂.ready)
    have hc₄ := hc₃.fills (symbol_fills .colon rfl hc₃.ready hcolon)
    refine List.forall_mem_append.mpr ⟨ihc hcond hc hgrouped.1.2, ?_⟩
    exact List.forall_mem_append.mpr ⟨iht htrue hc₂ hgrouped.2.1, ihf hfalse hc₄ hgrouped.2.2⟩

theorem Enclosed.fits_tokens_condition {cond : Expr Literal} {c d : Cursor}
    (h : Enclosed "(" ")" (cond.Covers Literal.IsValueOf) c d) (hc : Reached source c)
    (hall : tokensAt source = some all) (hgrouped : cond.Grouped) :
    ∀ k ∈ cond.constructs, k.Fits all (utf8Length source.toList) := by
  obtain ⟨c₁, c₂, hopen, hcond, -⟩ := h
  exact hcond.fits_tokens (hc.fills (symbol_fills .leftParen rfl hc.ready hopen)) hall hgrouped

mutual

/-- **Statements fit the tokens of the text**, with all that is in them. -/
theorem Stmt.Covers.fits_tokens {s : Stmt Literal} {c d : Cursor}
    (h : s.Covers Literal.IsValueOf c d) (hc : Reached source c)
    (hall : tokensAt source = some all) (hgrouped : s.Grouped) :
    ∀ k ∈ s.constructs, k.Fits all (utf8Length source.toList) := by
  have hself : (Construct.statement s).Fits all (utf8Length source.toList) :=
    hc.fits hall rfl (h.fills hc.ready) h.loc_eq
  cases s with
  | empty loc => exact List.forall_mem_singleton.mpr hself
  | declaration loc ty names =>
    obtain ⟨-, c₁, c₂, hty, hnames, -⟩ := h
    have hc₁ := hc.fills (typeName_fills hc.ready hty)
    exact List.forall_mem_cons.mpr ⟨hself, hnames.fits_tokens_names hc₁ hall⟩
  | expression loc e =>
    obtain ⟨-, c₁, he, -⟩ := h
    exact List.forall_mem_cons.mpr ⟨hself, he.fits_tokens hc hall hgrouped⟩
  | read loc names =>
    obtain ⟨-, c₁, c₂, hword, hnames, -⟩ := h
    have hc₁ := hc.fills (keyword_fills (t := .keyword .read) rfl hc.ready hword)
    exact List.forall_mem_cons.mpr ⟨hself, hnames.fits_tokens_names hc₁ hall⟩
  | write loc exprs =>
    obtain ⟨-, c₁, c₂, hword, hexprs, -⟩ := h
    have hc₁ := hc.fills (keyword_fills (t := .keyword .write) rfl hc.ready hword)
    have hparts := Listed.forall_reached (fun _ _ _ hc he => (he.fills hc).lexes)
      (fun _ _ _ hc he => he.fits_tokens hc hall) hexprs hc₁
    refine List.forall_mem_cons.mpr ⟨hself, fun k hk => ?_⟩
    obtain ⟨e, he, hk⟩ := List.mem_flatMap.mp hk
    exact hparts e he (hgrouped e he) k hk
  | block loc body =>
    obtain ⟨-, c₁, c₂, hopen, hbody, -⟩ := h
    have hc₁ := hc.fills (symbol_fills .leftBrace rfl hc.ready hopen)
    rw [← c₁.skipGap_skipGap] at hc₁
    have hparts := Stmt.CoversAll.fits_tokens hbody hc₁ hall (Stmt.allOf_iff.mp hgrouped)
    exact List.forall_mem_cons.mpr ⟨hself, hparts⟩
  | ifThen loc cond onTrue =>
    obtain ⟨-, c₁, c₂, c₃, hword, hcond, htrue, -⟩ := h
    have hc₁ := hc.fills (keyword_fills (t := .keyword .if) rfl hc.ready hword)
    have hc₂ := hc₁.fills (hcond.fills_condition hc₁.ready)
    refine List.forall_mem_cons.mpr ⟨hself, List.forall_mem_append.mpr ⟨?_, ?_⟩⟩
    · exact hcond.fits_tokens_condition hc₁ hall hgrouped.1
    · exact Stmt.Covers.fits_tokens htrue hc₂ hall hgrouped.2
  | ifElse loc cond onTrue onFalse =>
    obtain ⟨-, c₁, c₂, c₃, c₄, hword, hcond, htrue, helse, hfalse⟩ := h
    have hc₁ := hc.fills (keyword_fills (t := .keyword .if) rfl hc.ready hword)
    have hc₂ := hc₁.fills (hcond.fills_condition hc₁.ready)
    have hc₃ := hc₂.fills (htrue.fills hc₂.ready)
    have hc₄ := hc₃.fills (keyword_fills (t := .keyword .else) rfl hc₃.ready helse)
    refine List.forall_mem_cons.mpr ⟨hself, List.forall_mem_append.mpr
      ⟨hcond.fits_tokens_condition hc₁ hall hgrouped.1.1, List.forall_mem_append.mpr ⟨?_, ?_⟩⟩⟩
    · exact Stmt.Covers.fits_tokens htrue hc₂ hall hgrouped.2.1
    · exact Stmt.Covers.fits_tokens hfalse hc₄ hall hgrouped.2.2
  | whileDo loc cond body =>
    obtain ⟨-, c₁, c₂, hword, hcond, hbody⟩ := h
    have hc₁ := hc.fills (keyword_fills (t := .keyword .while) rfl hc.ready hword)
    have hc₂ := hc₁.fills (hcond.fills_condition hc₁.ready)
    refine List.forall_mem_cons.mpr ⟨hself, List.forall_mem_append.mpr ⟨?_, ?_⟩⟩
    · exact hcond.fits_tokens_condition hc₁ hall hgrouped.1
    · exact Stmt.Covers.fits_tokens hbody hc₂ hall hgrouped.2
  | doWhile loc body cond =>
    obtain ⟨-, c₁, c₂, c₃, c₄, hword, hbody, hagain, hcond, -⟩ := h
    have hc₁ := hc.fills (keyword_fills (t := .keyword .do) rfl hc.ready hword)
    have hc₂ := hc₁.fills (hbody.fills hc₁.ready)
    have hc₃ := hc₂.fills (keyword_fills (t := .keyword .while) rfl hc₂.ready hagain)
    refine List.forall_mem_cons.mpr ⟨hself, List.forall_mem_append.mpr ⟨?_, ?_⟩⟩
    · exact Stmt.Covers.fits_tokens hbody hc₁ hall hgrouped.2
    · exact hcond.fits_tokens_condition hc₃ hall hgrouped.1

theorem Stmt.CoversAll.fits_tokens {body : List (Stmt Literal)} {c d : Cursor}
    (h : Stmt.CoversAll Literal.IsValueOf body c d) (hc : Reached source c.skipGap)
    (hall : tokensAt source = some all) (hgrouped : ∀ s ∈ body, s.Grouped) :
    ∀ k ∈ Stmt.constructsAll body, k.Fits all (utf8Length source.toList) := by
  cases body with
  | nil => exact List.forall_mem_nil _
  | cons s rest =>
    obtain ⟨c₁, hs, hrest⟩ := h
    obtain ⟨hfirst, hothers⟩ := List.forall_mem_cons.mp hgrouped
    have hc₁ := hc.fills (hs.fills hc.ready)
    refine List.forall_mem_append.mpr ⟨Stmt.Covers.fits_tokens hs hc hall hfirst, ?_⟩
    exact Stmt.CoversAll.fits_tokens hrest hc₁ hall hothers

end

end

-- ---------------------------------------------------------------------------
-- Diagnostics
-- ---------------------------------------------------------------------------

@[simp] theorem Node.has_node_iff {loc loc' : Location} {name : Option String}
    {parts : List Node} :
    (Node.node loc' name parts).Has loc ↔ loc' = loc ∨ ∃ part ∈ parts, part.Has loc := by
  constructor
  · intro h
    cases h with
    | here => exact .inl rfl
    | part hpart hhas => exact .inr ⟨_, hpart, hhas⟩
  · rintro (rfl | ⟨part, hpart, hhas⟩)
    · exact .here
    · exact .part hpart hhas

/-- The locations in an expression are those of its constructs. -/
theorem Expr.has_iff (e : Expr Literal) (loc : Location) :
    e.node.Has loc ↔ ∃ k ∈ e.constructs, k.loc = loc := by
  induction e with
  | literal | name => simp [node, constructs, Expr.loc]
  | group _ _ ih | unary _ _ _ ih => simp [node, constructs, Expr.loc, ih]
  | assign _ _ _ ih => simp [node, Ident.node, constructs, Expr.loc, ih]
  | binary _ _ _ _ ihl ihr =>
    simp [node, constructs, Expr.loc, or_and_right, exists_or, ihl, ihr]
  | ternary _ _ _ _ ihc iht ihf =>
    simp [node, constructs, Expr.loc, or_and_right, exists_or, ihc, iht, ihf]

namespace Stmt

mutual

/-- The locations in a statement are those of its constructs. -/
theorem has_iff (s : Stmt Literal) (loc : Location) :
    s.node.Has loc ↔ ∃ k ∈ s.constructs, k.loc = loc := by
  cases s with
  | empty => simp [node, constructs, Stmt.loc]
  | declaration | read => simp [node, Ident.node, constructs, Stmt.loc]
  | expression => simp [node, constructs, Stmt.loc, Expr.has_iff]
  | write _ exprs =>
    have hparts : (∃ e ∈ exprs, ∃ k ∈ e.constructs, k.loc = loc) ↔
        ∃ k, (∃ e ∈ exprs, k ∈ e.constructs) ∧ k.loc = loc := by tauto
    simp [node, constructs, Stmt.loc, Expr.has_iff, hparts]
  | block _ body => simp [node, constructs, Stmt.loc, has_iff_all body]
  | ifThen _ _ body | whileDo _ _ body | doWhile _ body =>
    simp [node, constructs, Stmt.loc, or_and_right, exists_or, Expr.has_iff, has_iff body]
  | ifElse _ _ onTrue onFalse =>
    simp [node, constructs, Stmt.loc, or_and_right, exists_or, Expr.has_iff,
      has_iff onTrue, has_iff onFalse]

theorem has_iff_all (body : List (Stmt Literal)) (loc : Location) :
    (∃ node ∈ nodes body, node.Has loc) ↔ ∃ k ∈ constructsAll body, k.loc = loc := by
  cases body with
  | nil => simp [nodes, constructsAll]
  | cons s rest =>
    simp [nodes, constructsAll, or_and_right, exists_or, has_iff s, has_iff_all rest]

end

end Stmt

-- ---------------------------------------------------------------------------
-- Programs
-- ---------------------------------------------------------------------------

/-- **Spans and tokens.** Take the tokens of a text that is parsed, whatever the limit on
nesting, each with the bytes that it takes up.

1. The span of each statement, expression and name of the program starts with its first
   token. It ends with its last one unless the construct is loose, and then it goes on to
   the next token or, if there is none, to the end of the text.
2. What a diagnostic underlines is the span of such a construct. -/
theorem Program.spans_fit_tokens {limit : Nat} {source : String} {program : Program}
    (h : parseWithin limit source = .ok program) :
    ∃ all, tokensAt source = some all ∧
      (∀ k ∈ Stmt.constructsAll program,
        (¬k.IsLoose → k.EndsTight all) ∧
        (k.IsLoose → k.EndsLoose all (utf8Length source.toList))) ∧
      ∀ d ∈ program.compile.diagnostics, ∃ k ∈ Stmt.constructsAll program, k.loc = d.loc := by
  obtain ⟨all, hall, -⟩ := Option.map_eq_some_iff.mp
    ((tokensAt_tokens source).trans (Program.tokens_of_parse h))
  obtain ⟨d, hcovers, -⟩ := Program.covers_of_parse h
  refine ⟨all, hall, ?_, fun diagnostic hdiagnostic => ?_⟩
  · refine Stmt.CoversAll.fits_tokens hcovers ?_ hall (Program.grouped_of_parse h)
    rw [Cursor.skipGap_skipGap]
    exact .start source
  · rw [Program.compile_eq] at hdiagnostic
    exact (Stmt.has_iff_all program _).mp
      (Stmt.faultsFromAll_has .empty program diagnostic hdiagnostic)

/-- A text in which two gaps belong to spans, and one does not. -/
def gapsText : String :=
  "if (b) write x = 1 /* to x */ , x - -2 ; // end"

theorem Program.spans_fit_tokens_gaps :
    ∃ program, parseWithin 9 gapsText = .ok program ∧
      (Stmt.constructsAll program).map (fun k => k.loc.span) =
        [⟨0, 47⟩, ⟨4, 5⟩, ⟨7, 40⟩, ⟨13, 30⟩, ⟨13, 14⟩, ⟨17, 18⟩, ⟨32, 38⟩, ⟨32, 33⟩, ⟨36, 38⟩,
          ⟨37, 38⟩] ∧
      ∃ all, tokensAt gapsText = some all ∧
        (∀ k ∈ Stmt.constructsAll program,
          (¬k.IsLoose → k.EndsTight all) ∧
          (k.IsLoose → k.EndsLoose all (utf8Length gapsText.toList))) ∧
        ∀ d ∈ program.compile.diagnostics, ∃ k ∈ Stmt.constructsAll program, k.loc = d.loc := by
  obtain ⟨program, hparse, hspans⟩ : ∃ program, parseWithin 9 gapsText = .ok program ∧
      (Stmt.constructsAll program).map (fun k => k.loc.span) =
        [⟨0, 47⟩, ⟨4, 5⟩, ⟨7, 40⟩, ⟨13, 30⟩, ⟨13, 14⟩, ⟨17, 18⟩, ⟨32, 38⟩, ⟨32, 33⟩, ⟨36, 38⟩,
          ⟨37, 38⟩] :=
    exists_ok_of_toOption (by decide +kernel)
  exact ⟨program, hparse, hspans, spans_fit_tokens hparse⟩

theorem Construct.EndsTight.mem_stops {k : Construct} {all : List TokenAt} (h : k.EndsTight all) :
    k.loc.span.stop ∈ all.map (·.span.stop) := by
  obtain ⟨before, own, after, rfl, -, hlast⟩ := h
  obtain ⟨t, ht, hstop⟩ := Option.map_eq_some_iff.mp hlast
  refine List.mem_map.mpr ⟨t, ?_, hstop⟩
  exact List.mem_append_left _ (List.mem_append_right _ (List.mem_of_getLast? ht))

/-- A choice that is no condition. -/
def choiceText : String :=
  "while (true ? 1 : 2 ) ;"

/-- The tokens of the choice. -/
def choiceTokens : List Token :=
  [.literal (.bool true), .mark "?", .literal (.int 1), .mark ":", .literal (.int 2)]

/-- **Not all spans end with a token.** The choice is said to go on to the parenthesis, and
that is what the diagnostic about it underlines. -/
theorem Program.choice_takes_in_gap :
    ∃ program all, parse choiceText = .ok program ∧ tokensAt choiceText = some all ∧
      ∃ k ∈ Stmt.constructsAll program, k.tokens = choiceTokens ∧ ¬k.EndsTight all ∧
        ∃ d ∈ program.compile.diagnostics, d.loc = k.loc := by
  obtain ⟨program, hparse, hany⟩ : ∃ program, parse choiceText = .ok program ∧
      ((Stmt.constructsAll program).any
          (fun k => k.tokens = choiceTokens ∧ k.loc = ⟨⟨7, 20⟩, 1, 8⟩) &&
        program.compile.diagnostics.any (fun d => d.loc = ⟨⟨7, 20⟩, 1, 8⟩)) = true :=
    exists_ok_of_toOption (by decide +kernel)
  have hstops : (tokensAt choiceText).map (List.map (·.span.stop)) =
      some [5, 7, 11, 13, 15, 17, 19, 21, 23] := by decide +kernel
  obtain ⟨all, hall, hstops⟩ := Option.map_eq_some_iff.mp hstops
  obtain ⟨hconstruct, hdiagnostic⟩ := Bool.and_eq_true_iff.mp hany
  obtain ⟨k, hk, hkhas⟩ := List.any_eq_true.mp hconstruct
  obtain ⟨d, hd, hdloc⟩ := List.any_eq_true.mp hdiagnostic
  obtain ⟨htokens, hkloc⟩ := of_decide_eq_true hkhas
  have hdloc : d.loc = ⟨⟨7, 20⟩, 1, 8⟩ := of_decide_eq_true hdloc
  have hsame : d.loc = k.loc := hdloc.trans hkloc.symm
  refine ⟨program, all, hparse, hall, k, hk, htokens, fun htight => ?_, d, hd, hsame⟩
  have hmem := htight.mem_stops
  rw [hstops, hkloc] at hmem
  exact absurd hmem (by decide)

end Cairn
