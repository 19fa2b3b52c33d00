import Cairn.Proofs.Reading.Expression

/-!
# Cairn — statements read back

The grammar reads the terminals of statements in form as those statements. The
first terminal of a statement tells which alternative of the grammar reads it. An
`if` without `else` takes up an `else` that follows, so that none may follow it.

## Main statements

* `Grammar.statement_reads` — a statement in form is read as itself.
* `Grammar.program_reads`   — so is a whole program, up to the end of the text.
-/

namespace Cairn.Grammar

open Parser.Reads

-- ---------------------------------------------------------------------------
-- Lists and types
-- ---------------------------------------------------------------------------

theorem commaList_reads {α β : Type} {p : Parser α} {items : List β} (hne : items ≠ [])
    {terms : β → List Terminal} {R : β → α → Prop} {next : List Terminal → Prop}
    (hp : ∀ b ∈ items, p.Reads (terms b) (R b) next)
    (hnext : ∀ after, StartsWith [.comma, .semicolon] after → next after) :
    (commaList p).Reads (commaSeparated (items.map terms)) (List.Forall₂ R items)
      (StartsWith [.semicolon]) := by
  obtain ⟨first, rest, rfl⟩ := List.exists_cons_of_ne_nil hne
  obtain ⟨hfirst, hrest⟩ := List.forall_mem_cons.mp hp
  have hsemicolon : ∀ after, StartsWith [.semicolon] after →
      StartsWith [.comma, .semicolon] after := by
    rintro after ⟨s, hs, hafter⟩
    exact ⟨s, List.mem_cons_of_mem _ hs, hafter⟩
  have hmore : (symbol "," *> p).Rounds rest (fun b => .mark .comma :: terms b) R next
      (StartsWith [.semicolon]) :=
    { reads := fun b hb => (symbol_reads .comma).seqRight (hrest b hb) fun _ _ => trivial
      nonempty := fun _ _ => List.cons_ne_nil _ _
      goesOn := fun _ _ _ => hnext _ ⟨.comma, by decide, rfl⟩
      ends := fun after hafter => hnext after (hsemicolon after hafter)
      stops := by
        rintro after ⟨s, hs, hafter⟩
        obtain rfl := List.mem_singleton.mp hs
        refine (symbol_refuses .comma fun s' hs' => ?_).seqRight p
        rw [hafter] at hs'
        cases hs'
        decide }
  rw [List.map_cons, commaSeparated, List.flatMap_map]
  refine (hfirst.map ?_).seq hmore.many fun after hafter => hmore.next_rest hafter
  exact fun _ ha _ has => .cons ha has

theorem keyword_refuses_keyword {k k' : Keyword} (h : k ≠ k') (ts : List Terminal) :
    (keyword k').Refuses (.keyword k :: ts) := by
  refine keyword_refuses ?_
  intro hk
  exact h (Option.some.inj hk)

theorem typeName_reads {ty : Ty} (h : ty ≠ .error) :
    typeName.Reads ty.terminals (· = ty) anything := by
  refine Parser.Reads.rule ?_ _
  cases ty with
  | int =>
    refine ((keyword_reads rfl).map ?_).orElse _
    exact fun _ _ => rfl
  | float =>
    refine orElse_right (fun _ _ => (keyword_refuses_keyword (by decide) _).map _) ?_
    refine ((keyword_reads rfl).map ?_).orElse _
    exact fun _ _ => rfl
  | bool =>
    refine orElse_right (fun _ _ => (keyword_refuses_keyword (by decide) _).map _) ?_
    refine orElse_right (fun _ _ => (keyword_refuses_keyword (by decide) _).map _) ?_
    refine ((keyword_reads rfl).map ?_).orElse _
    exact fun _ _ => rfl
  | string =>
    refine orElse_right (fun _ _ => (keyword_refuses_keyword (by decide) _).map _) ?_
    refine orElse_right (fun _ _ => (keyword_refuses_keyword (by decide) _).map _) ?_
    refine orElse_right (fun _ _ => (keyword_refuses_keyword (by decide) _).map _) ?_
    refine (keyword_reads rfl).map ?_
    exact fun _ _ => rfl
  | error => exact absurd rfl h

/-- The reserved word that the terminals start with. -/
def lead (ts : List Terminal) : Option Keyword :=
  ts.head?.bind Terminal.keyword?

theorem typeName_refuses {ts : List Terminal}
    (h : ∀ k ∈ [Keyword.int, .float, .bool, .string], lead ts ≠ some k) : typeName.Refuses ts := by
  have hone : ∀ k ∈ [Keyword.int, .float, .bool, .string], (keyword k).Refuses ts := fun k hk =>
    keyword_refuses (h k hk)
  refine Parser.Refuses.rule (.orElse ((hone .int (by decide)).map _) ?_) _
  refine .orElse ((hone .float (by decide)).map _) ?_
  exact .orElse ((hone .bool (by decide)).map _) ((hone .string (by decide)).map _)

-- ---------------------------------------------------------------------------
-- The parts of statements
-- ---------------------------------------------------------------------------

/-- What may follow the statement: an `if` without `else` takes up any `else`. -/
def StmtEnds (s : Stmt Literal) (after : List Terminal) : Prop :=
  s.EndsOpen → after.head? ≠ some (.keyword .else)

/-- The parser reads statements in form that have at most `n` terminals. -/
def StmtsUpTo (n : Nat) (p : Parser (Stmt Lexeme)) : Prop :=
  ∀ s : Stmt Literal, s.InForm → s.terminals.length ≤ n →
    p.Reads s.terminals (Stmt.ResolvesTo · s) (StmtEnds s)

/-- What may follow the statements of a block or of a program. -/
def BodyEnds (ts : List Terminal) : Prop :=
  ts = [] ∨ ts.head? = some (.mark .rightBrace)

variable {n : Nat} {p : Parser (Expr Lexeme)} {q : Parser (Stmt Lexeme)} {loc : Location}
  {e : Expr Literal} {s t : Stmt Literal}

theorem startsWith_semicolon (after : List Terminal) :
    StartsWith [.semicolon] ([.mark .semicolon] ++ after) :=
  ⟨.semicolon, by decide, rfl⟩

theorem names_reads {names : List Ident} (hne : names ≠ []) :
    (commaList ident).Reads (namesTerminals names)
      (List.Forall₂ (fun x x' => x'.name = x.name) names) (StartsWith [.semicolon]) :=
  commaList_reads hne (fun x _ => ident_reads x.name) fun _ _ => trivial

theorem condition_reads (hp : ReadsUpTo n p) (he : e.InForm) (hlength : e.terminals.length ≤ n) :
    (condition p).Reads e.conditionTerminals (Expr.Denotes · e) anything := by
  have hopen := (symbol_reads .leftParen).seqRight (hp e he hlength) fun _ _ => trivial
  exact hopen.seqLeft (symbol_reads .rightParen) fun _ _ => ⟨.rightParen, by decide, rfl⟩

theorem empty_reads :
    empty.Reads (Stmt.empty loc).terminals (Stmt.ResolvesTo · (.empty loc)) anything := by
  refine (located ((symbol_reads .semicolon).map ?_)).rule _
  exact fun _ _ _ => .empty

theorem declaration_reads {ty : Ty} {names : List Ident} (hty : ty ≠ .error) (hne : names ≠ []) :
    declaration.Reads (Stmt.declaration loc ty names).terminals
      (Stmt.ResolvesTo · (.declaration loc ty names)) anything := by
  rw [Stmt.terminals, ← List.append_assoc]
  refine (located ((((typeName_reads hty).map ?_).seq (names_reads hne) fun _ _ => trivial).seqLeft
    (symbol_reads .semicolon) fun after _ => startsWith_semicolon after)).rule _
  rintro _ rfl names' hnames loc'
  exact .declaration hnames

theorem read_reads {names : List Ident} (hne : names ≠ []) :
    read.Reads (Stmt.read loc names).terminals (Stmt.ResolvesTo · (.read loc names)) anything := by
  have hread := (keyword_reads (t := .keyword .read) rfl).seqRight (names_reads hne)
    fun _ _ => trivial
  refine (located ((hread.map ?_).seqLeft (symbol_reads .semicolon)
    fun after _ => startsWith_semicolon after)).rule _
  exact fun _ hnames _ => .read hnames

theorem write_reads (hp : ReadsUpTo n p) {exprs : List (Expr Literal)} (hne : exprs ≠ [])
    (hexprs : ∀ e ∈ exprs, e.InForm)
    (hlength : (Stmt.write loc exprs).terminals.length ≤ n) :
    (write p).Reads (Stmt.write loc exprs).terminals (Stmt.ResolvesTo · (.write loc exprs))
      anything := by
  simp only [Stmt.terminals, List.length_cons, List.length_append] at hlength
  have hlist : (commaList p).Reads (commaSeparated (exprs.map Expr.terminals))
      (List.Forall₂ (fun e a => a.Denotes e) exprs) (StartsWith [.semicolon]) := by
    refine commaList_reads hne (fun e he => hp e (hexprs e he) ?_) ?_
    · have := length_le_commaSeparated (List.mem_map_of_mem (f := Expr.terminals) he)
      omega
    · rintro after ⟨s, hs, hafter⟩
      have hsub : [Mark.comma, .semicolon] ⊆ [.rightParen, .semicolon, .comma, .colon] := by decide
      exact ⟨s, hsub hs, hafter⟩
  have hwrite := (keyword_reads (t := .keyword .write) rfl).seqRight hlist fun _ _ => trivial
  refine (located ((hwrite.map ?_).seqLeft (symbol_reads .semicolon)
    fun after _ => startsWith_semicolon after)).rule _
  exact fun _ has _ => .write has

theorem expression_reads (hp : ReadsUpTo n p) (he : e.InForm) (hlength : e.terminals.length ≤ n) :
    (expression p).Reads (Stmt.expression loc e).terminals (Stmt.ResolvesTo · (.expression loc e))
      anything := by
  refine (located (((hp e he hlength).map ?_).seqLeft (symbol_reads .semicolon) ?_)).rule _
  · exact fun _ ha _ => .expression ha
  · exact fun _ _ => ⟨.semicolon, by decide, rfl⟩

/-- The terminals do not start with an `else`. -/
def NoElse (ts : List Terminal) : Prop :=
  ts.head? ≠ some (.keyword .else)

theorem else_refuses {ts : List Terminal} (h : NoElse ts) : (keyword .else).Refuses ts := by
  refine keyword_refuses fun hlead => h ?_
  obtain ⟨t, ht, hkeyword⟩ := Option.bind_eq_some_iff.mp hlead
  rw [ht]
  unfold Terminal.keyword? at hkeyword
  split at hkeyword <;> cases hkeyword
  rfl

theorem ifThen_reads (hp : ReadsUpTo (n + 1) p) (hq : StmtsUpTo n q)
    (h : (Stmt.ifThen loc e s).InForm) (hlength : (Stmt.ifThen loc e s).terminals.length ≤ n + 1) :
    (ifStmt p q).Reads (Stmt.ifThen loc e s).terminals (Stmt.ResolvesTo · (.ifThen loc e s))
      (StmtEnds (.ifThen loc e s)) := by
  obtain ⟨he, hs⟩ := h
  simp only [Stmt.terminals, Expr.conditionTerminals, List.length_cons, List.length_append]
    at hlength
  have hcond := (keyword_reads (t := .keyword .if) rfl).seqRight
    (condition_reads hp he (by omega)) fun _ _ => trivial
  have hnone : (keyword .else *> q).optional.Reads [] (· = none) NoElse :=
    optional_none fun _ hafter => (else_refuses hafter).seqRight q
  rw [← List.append_nil (Stmt.ifThen loc e s).terminals]
  refine (located (((hcond.map ?_).seq (hq s hs (by omega)) fun _ _ => trivial).seq
    (hnone.mono (fun _ h => h) fun _ hafter => hafter trivial) fun _ hafter _ => hafter trivial)).rule _
  rintro a ha b hb _ rfl loc'
  exact .ifThen ha hb

theorem ifElse_reads (hp : ReadsUpTo (n + 1) p) (hq : StmtsUpTo n q)
    (h : (Stmt.ifElse loc e s t).InForm)
    (hlength : (Stmt.ifElse loc e s t).terminals.length ≤ n + 1) :
    (ifStmt p q).Reads (Stmt.ifElse loc e s t).terminals (Stmt.ResolvesTo · (.ifElse loc e s t))
      (StmtEnds (.ifElse loc e s t)) := by
  obtain ⟨⟨he, hclosed⟩, hs, ht⟩ := h
  simp only [Stmt.terminals, Expr.conditionTerminals, List.length_cons, List.length_append]
    at hlength
  have hcond := (keyword_reads (t := .keyword .if) rfl).seqRight
    (condition_reads hp he (by omega)) fun _ _ => trivial
  have helse := ((keyword_reads (t := .keyword .else) rfl).seqRight (hq t ht (by omega))
    fun _ _ => trivial).optional
  have hterminals : (Stmt.ifElse loc e s t).terminals =
      (([.keyword .if] ++ e.conditionTerminals) ++ s.terminals) ++
        ([.keyword .else] ++ t.terminals) := by
    simp [Stmt.terminals]
  rw [hterminals]
  refine (located (((hcond.map ?_).seq (hq s hs (by omega)) fun _ _ => trivial).seq helse
    fun _ _ hopen => absurd hopen hclosed)).rule _
  rintro a ha b hb _ ⟨c, rfl, hc⟩ loc'
  exact .ifElse ha hb hc

theorem whileDo_reads (hp : ReadsUpTo (n + 1) p) (hq : StmtsUpTo n q)
    (h : (Stmt.whileDo loc e s).InForm)
    (hlength : (Stmt.whileDo loc e s).terminals.length ≤ n + 1) :
    (whileDo p q).Reads (Stmt.whileDo loc e s).terminals (Stmt.ResolvesTo · (.whileDo loc e s))
      (StmtEnds (.whileDo loc e s)) := by
  obtain ⟨he, hs⟩ := h
  simp only [Stmt.terminals, Expr.conditionTerminals, List.length_cons, List.length_append]
    at hlength
  have hcond := (keyword_reads (t := .keyword .while) rfl).seqRight
    (condition_reads hp he (by omega)) fun _ _ => trivial
  refine (located ((hcond.map ?_).seq (hq s hs (by omega)) fun _ _ => trivial)).rule _
  exact fun _ ha _ hb _ => .whileDo ha hb

theorem doWhile_reads (hp : ReadsUpTo (n + 1) p) (hq : StmtsUpTo n q)
    (h : (Stmt.doWhile loc s e).InForm)
    (hlength : (Stmt.doWhile loc s e).terminals.length ≤ n + 1) :
    (doWhile p q).Reads (Stmt.doWhile loc s e).terminals (Stmt.ResolvesTo · (.doWhile loc s e))
      anything := by
  obtain ⟨he, hs⟩ := h
  simp only [Stmt.terminals, Expr.conditionTerminals, List.length_cons, List.length_append]
    at hlength
  have hbody := (keyword_reads (t := .keyword .do) rfl).seqRight (hq s hs (by omega))
    fun _ _ => trivial
  have hcond := (keyword_reads (t := .keyword .while) rfl).seqRight
    (condition_reads hp he (by omega)) fun _ _ => trivial
  have hterminals : (Stmt.doWhile loc s e).terminals =
      (([.keyword .do] ++ s.terminals) ++ ([.keyword .while] ++ e.conditionTerminals)) ++
        [.mark .semicolon] := by
    simp [Stmt.terminals]
  rw [hterminals]
  refine (located (((hbody.map ?_).seq hcond ?_).seqLeft (symbol_reads .semicolon)
    fun _ _ => trivial)).rule _
  · exact fun _ hb _ ha _ => .doWhile hb ha
  · intro after _ _ h
    cases h

-- ---------------------------------------------------------------------------
-- Choosing the alternative
-- ---------------------------------------------------------------------------

variable {ts : List Terminal}

theorem empty_refuses (h : ∀ s, ts.head? = some (.mark s) → s.front ≠ Mark.semicolon.front) :
    empty.Refuses ts :=
  (((symbol_refuses .semicolon h).map _).located).rule _

theorem block_refuses (h : ∀ s, ts.head? = some (.mark s) → s.front ≠ Mark.leftBrace.front) :
    (block q).Refuses ts :=
  (((((symbol_refuses .leftBrace h).seqRight _).map _).seqLeft _).located).rule _

theorem declaration_refuses (h : ∀ k ∈ [Keyword.int, .float, .bool, .string], lead ts ≠ some k) :
    declaration.Refuses ts :=
  (((((typeName_refuses h).map _).seq _).seqLeft _).located).rule _

theorem read_refuses (h : lead ts ≠ some .read) : read.Refuses ts :=
  (((((keyword_refuses h).seqRight _).map _).seqLeft _).located).rule _

theorem write_refuses (h : lead ts ≠ some .write) : (write p).Refuses ts :=
  (((((keyword_refuses h).seqRight _).map _).seqLeft _).located).rule _

theorem ifStmt_refuses (h : lead ts ≠ some .if) : (ifStmt p q).Refuses ts :=
  ((((((keyword_refuses h).seqRight _).map _).seq _).seq _).located).rule _

theorem whileDo_refuses (h : lead ts ≠ some .while) : (whileDo p q).Refuses ts :=
  (((((keyword_refuses h).seqRight _).map _).seq _).located).rule _

theorem doWhile_refuses (h : lead ts ≠ some .do) : (doWhile p q).Refuses ts :=
  ((((((keyword_refuses h).seqRight _).map _).seq _).seqLeft _).located).rule _

/-- The terminals start like no statement but an expression. -/
structure NoOther (ts : List Terminal) : Prop where
  empty : ∀ s, ts.head? = some (.mark s) → s.front ≠ Mark.semicolon.front
  block : ∀ s, ts.head? = some (.mark s) → s.front ≠ Mark.leftBrace.front
  keyword : ∀ k, lead ts = some k → k = .true ∨ k = .false

theorem NoOther.lead_ne (h : NoOther ts) {k : Keyword} (hk : k ≠ .true ∧ k ≠ .false) :
    lead ts ≠ some k := by
  intro hlead
  rcases h.keyword k hlead with rfl | rfl
  · exact hk.1 rfl
  · exact hk.2 rfl

theorem NoOther.declaration (h : NoOther ts) :
    ∀ k ∈ [Keyword.int, .float, .bool, .string], lead ts ≠ some k := by
  intro k hk
  refine h.lead_ne ⟨?_, ?_⟩ <;> rintro rfl <;> exact absurd hk (by decide)

theorem noOther_mark {s : Mark}
    (h : s.front ≠ Mark.semicolon.front ∧ s.front ≠ Mark.leftBrace.front) (rest : List Terminal) :
    NoOther (.mark s :: rest) := by
  refine ⟨?_, ?_, nofun⟩
  · rintro _ ⟨⟩
    exact h.1
  · rintro _ ⟨⟩
    exact h.2

theorem noOther_of_head {t : Terminal} (hmark : ∀ s, t ≠ .mark s)
    (hkeyword : ∀ k, t.keyword? = some k → k = .true ∨ k = .false) (rest : List Terminal) :
    NoOther (t :: rest) := by
  refine ⟨?_, ?_, hkeyword⟩
  · rintro s ⟨⟩
    exact absurd rfl (hmark s)
  · rintro s ⟨⟩
    exact absurd rfl (hmark s)

theorem noOther_name (x : String) (rest : List Terminal) : NoOther (.name x :: rest) := by
  refine noOther_of_head ?_ ?_ rest
  · rintro s ⟨⟩
  · rintro k ⟨⟩

theorem noOther_literal (value : Literal) (rest : List Terminal) :
    NoOther (.literal value :: rest) := by
  refine noOther_of_head ?_ ?_ rest
  · rintro s ⟨⟩
  · intro k hk
    cases value with
    | bool b =>
      cases b <;> cases hk
      · exact .inr rfl
      · exact .inl rfl
    | _ => cases hk

theorem noOther_terminals (e : Expr Literal) (after : List Terminal) :
    NoOther (e.terminals ++ after) := by
  induction e generalizing after with
  | literal loc value => exact noOther_literal value after
  | name loc x => exact noOther_name x after
  | group => exact noOther_mark (by decide) _
  | unary loc op operand => exact noOther_mark (by cases op <;> decide) _
  | binary loc op left right ihl =>
    rw [Expr.terminals, List.append_assoc]
    exact ihl _
  | assign loc target => exact noOther_name target.name _
  | ternary loc cond onTrue onFalse ihc =>
    rw [Expr.terminals, List.append_assoc]
    exact ihc _

theorem BodyEnds.cases (h : BodyEnds ts) : ts = [] ∨ ∃ rest, ts = .mark .rightBrace :: rest :=
  h.imp_right List.head?_eq_some_iff.mp

theorem BodyEnds.noOther (h : BodyEnds ts) : NoOther ts := by
  rcases h.cases with rfl | ⟨rest, rfl⟩
  · exact ⟨nofun, nofun, nofun⟩
  · exact noOther_mark (by decide) rest

theorem BodyEnds.noExpr (h : BodyEnds ts) : NoExpr ts := by
  rcases h.cases with rfl | ⟨rest, rfl⟩
  · exact ⟨nofun, nofun, nofun, nofun, nofun⟩
  · refine ⟨?_, nofun, ?_, ?_, ?_⟩
    · rintro _ c ⟨⟩ rfl
      decide
    · rintro x ⟨⟩
    · rintro _ ⟨⟩
      decide
    · rintro _ op ⟨⟩
      cases op <;> decide

/-- No statement starts where a body ends. -/
theorem statement_refuses (h : BodyEnds ts) (n : Nat) : (statement n).Refuses ts := by
  cases n with
  | zero => exact fun _ _ => rfl
  | succ n =>
    have hother := h.noOther
    have hexpr := expr_refuses h.noExpr (n + 1)
    have hexpression : (expression (expr (n + 1))).Refuses ts :=
      (((hexpr.map _).seqLeft _).located).rule _
    exact .orElse (empty_refuses hother.empty) <| .orElse (block_refuses hother.block) <|
      .orElse (declaration_refuses hother.declaration) <|
      .orElse (read_refuses (hother.lead_ne (by decide))) <|
      .orElse (write_refuses (hother.lead_ne (by decide))) <|
      .orElse (ifStmt_refuses (hother.lead_ne (by decide))) <|
      .orElse (whileDo_refuses (hother.lead_ne (by decide))) <|
      .orElse (doWhile_refuses (hother.lead_ne (by decide))) hexpression

/-- An expression is passed over by all alternatives in front of its own. -/
theorem statement_of_expression {P : Stmt Lexeme → Prop} {next : List Terminal → Prop}
    (hother : ∀ after, NoOther (ts ++ after))
    (h : (expression (expr (n + 1))).Reads ts P next) : (statement (n + 1)).Reads ts P next := by
  have hlead : ∀ {k : Keyword}, k ≠ .true ∧ k ≠ .false → ∀ after, lead (ts ++ after) ≠ some k :=
    fun hk after => (hother after).lead_ne hk
  exact orElse_right (fun after _ => empty_refuses (hother after).empty) <|
    orElse_right (fun after _ => block_refuses (hother after).block) <|
    orElse_right (fun after _ => declaration_refuses (hother after).declaration) <|
    orElse_right (fun after _ => read_refuses (hlead (by decide) after)) <|
    orElse_right (fun after _ => write_refuses (hlead (by decide) after)) <|
    orElse_right (fun after _ => ifStmt_refuses (hlead (by decide) after)) <|
    orElse_right (fun after _ => whileDo_refuses (hlead (by decide) after)) <|
    orElse_right (fun after _ => doWhile_refuses (hlead (by decide) after)) h

theorem lead_ne_of_keyword {k k' : Keyword} (h : k ≠ k') (ts : List Terminal) :
    lead (.keyword k :: ts) ≠ some k' :=
  fun hlead => h (Option.some.inj hlead)

theorem empty_refuses_keyword (k : Keyword) : empty.Refuses (.keyword k :: ts) := by
  refine empty_refuses ?_
  rintro _ ⟨⟩

theorem block_refuses_keyword (k : Keyword) : (block q).Refuses (.keyword k :: ts) := by
  refine block_refuses ?_
  rintro _ ⟨⟩

theorem declaration_refuses_keyword {k : Keyword} (hk : k ∉ [Keyword.int, .float, .bool, .string]) :
    declaration.Refuses (.keyword k :: ts) := by
  refine declaration_refuses ?_
  rintro k' hk' ⟨⟩
  exact hk hk'

/-- What starts with a reserved word other than a type is passed over by the first three
alternatives. -/
theorem statement_of_keyword {k : Keyword} (hk : k ∉ [Keyword.int, .float, .bool, .string])
    {P : Stmt Lexeme → Prop} {next : List Terminal → Prop}
    (h : (read <|> write (expr (n + 1)) <|> ifStmt (expr (n + 1)) (statement n) <|>
      whileDo (expr (n + 1)) (statement n) <|> doWhile (expr (n + 1)) (statement n) <|>
      expression (expr (n + 1))).Reads (.keyword k :: ts) P next) :
    (statement (n + 1)).Reads (.keyword k :: ts) P next :=
  orElse_right (fun _ _ => empty_refuses_keyword k) <|
    orElse_right (fun _ _ => block_refuses_keyword k) <|
    orElse_right (fun _ _ => declaration_refuses_keyword hk) h

/-- What starts with a reserved word of control flow is passed over by the first five
alternatives. -/
theorem statement_of_control {k : Keyword}
    (hk : k ∉ [Keyword.int, .float, .bool, .string, .read, .write])
    {P : Stmt Lexeme → Prop} {next : List Terminal → Prop}
    (h : (ifStmt (expr (n + 1)) (statement n) <|> whileDo (expr (n + 1)) (statement n) <|>
      doWhile (expr (n + 1)) (statement n) <|> expression (expr (n + 1))).Reads
        (.keyword k :: ts) P next) :
    (statement (n + 1)).Reads (.keyword k :: ts) P next := by
  have hread : k ≠ .read := by
    rintro rfl
    exact hk (by decide)
  have hwrite : k ≠ .write := by
    rintro rfl
    exact hk (by decide)
  refine statement_of_keyword (fun hin => hk (List.mem_append_left [.read, .write] hin)) ?_
  exact orElse_right (fun _ _ => read_refuses (lead_ne_of_keyword hread _)) <|
    orElse_right (fun _ _ => write_refuses (lead_ne_of_keyword hwrite _)) h

-- ---------------------------------------------------------------------------
-- Statements and programs
-- ---------------------------------------------------------------------------

/-- No statement starts with an `else`. -/
theorem noElse_terminals (hs : s.InForm) (after : List Terminal) :
    NoElse (s.terminals ++ after) := by
  intro helse
  cases s with
  | declaration loc ty names =>
    cases ty with
    | error => exact absurd rfl hs.1
    | _ => cases helse
  | expression loc e =>
    rw [Stmt.terminals, List.append_assoc] at helse
    have hlead := (noOther_terminals e ([.mark .semicolon] ++ after)).lead_ne (k := .else) (by decide)
    rw [lead, helse] at hlead
    exact hlead rfl
  | _ => cases helse

theorem terminals_ne_nil (s : Stmt Literal) : s.terminals ≠ [] := by
  cases s <;> simp [Stmt.terminals]

/-- The statements of a body are read up to where it ends. -/
theorem body_rounds {body : List (Stmt Literal)} (hq : StmtsUpTo n q)
    (hstop : ∀ ts, BodyEnds ts → q.Refuses ts) (hbody : ∀ s ∈ body, s.InForm)
    (hlength : (body.flatMap Stmt.terminals).length ≤ n) :
    q.Rounds body Stmt.terminals (fun s a => a.ResolvesTo s) NoElse BodyEnds where
  reads := by
    intro s hs
    refine (hq s (hbody s hs) ?_).mono (fun _ ha => ha) fun _ hafter _ => hafter
    obtain ⟨before, after, rfl⟩ := List.append_of_mem hs
    simp only [List.flatMap_append, List.flatMap_cons, List.length_append] at hlength
    omega
  nonempty := fun s _ => terminals_ne_nil s
  goesOn := fun s hs after => noElse_terminals (hbody s hs) after
  ends := by
    intro after hafter
    rcases hafter.cases with rfl | ⟨rest, rfl⟩
    · exact nofun
    · rintro ⟨⟩
  stops := hstop

theorem block_reads {body : List (Stmt Literal)} (hq : StmtsUpTo n q)
    (hstop : ∀ ts, BodyEnds ts → q.Refuses ts) (h : (Stmt.block loc body).InForm)
    (hlength : (Stmt.block loc body).terminals.length ≤ n + 1) :
    (block q).Reads (Stmt.block loc body).terminals (Stmt.ResolvesTo · (.block loc body))
      anything := by
  simp only [Stmt.terminals, Stmt.terminalsAll_eq, List.length_cons, List.length_append]
    at hlength ⊢
  have hbody := body_rounds hq hstop (Stmt.allOf_iff.mp h) (by omega)
  have hopen := (symbol_reads .leftBrace).seqRight hbody.many fun _ _ => trivial
  refine (located ((hopen.map ?_).seqLeft (symbol_reads .rightBrace) fun _ _ => .inr rfl)).rule _
  exact fun _ hbody _ => .block hbody

/-- **Statements read back.** -/
theorem statement_reads (n : Nat) : StmtsUpTo n (statement n) := by
  induction n with
  | zero =>
    intro s _ hlength
    exact absurd (List.length_eq_zero_iff.mp (Nat.le_zero.mp hlength)) (terminals_ne_nil s)
  | succ n ih =>
    have hexpr := expr_reads (n + 1)
    intro s hs hlength
    cases s with
    | empty loc => exact (empty_reads.of_anything).orElse _
    | declaration loc ty names =>
      have hdeclaration : declaration.Reads (Stmt.declaration loc ty names).terminals
          (Stmt.ResolvesTo · (.declaration loc ty names)) (StmtEnds (.declaration loc ty names)) :=
        (declaration_reads hs.1 hs.2.1).of_anything
      cases ty with
      | error => exact absurd rfl hs.1
      | _ =>
        exact orElse_right (fun _ _ => empty_refuses_keyword _) <|
          orElse_right (fun _ _ => block_refuses_keyword _) (hdeclaration.orElse _)
    | expression loc e =>
      simp only [Stmt.terminals, List.length_append] at hlength
      refine statement_of_expression (fun after => ?_)
        (expression_reads hexpr hs (by omega)).of_anything
      rw [Stmt.terminals, List.append_assoc]
      exact noOther_terminals e _
    | read loc names =>
      exact statement_of_keyword (by decide) ((read_reads hs.1).of_anything.orElse _)
    | write loc exprs =>
      refine statement_of_keyword (by decide) ?_
      refine orElse_right (fun _ _ => read_refuses (lead_ne_of_keyword (by decide) _)) ?_
      exact (write_reads hexpr hs.1 hs.2 hlength).of_anything.orElse _
    | block loc body =>
      have hblock := block_reads ih (fun _ h => statement_refuses h n) hs hlength
      refine orElse_right (fun _ _ => empty_refuses ?_) (hblock.of_anything.orElse _)
      rintro _ ⟨⟩
      decide
    | ifThen loc cond onTrue =>
      exact statement_of_control (by decide) ((ifThen_reads hexpr ih hs hlength).orElse _)
    | ifElse loc cond onTrue onFalse =>
      exact statement_of_control (by decide) ((ifElse_reads hexpr ih hs hlength).orElse _)
    | whileDo loc cond body =>
      refine statement_of_control (by decide) ?_
      refine orElse_right (fun _ _ => ifStmt_refuses (lead_ne_of_keyword (by decide) _)) ?_
      exact (whileDo_reads hexpr ih hs hlength).orElse _
    | doWhile loc body cond =>
      refine statement_of_control (by decide) ?_
      refine orElse_right (fun _ _ => ifStmt_refuses (lead_ne_of_keyword (by decide) _)) ?_
      refine orElse_right (fun _ _ => whileDo_refuses (lead_ne_of_keyword (by decide) _)) ?_
      exact (doWhile_reads hexpr ih hs hlength).of_anything.orElse _

/-- **Programs read back**, up to the end of the text. -/
theorem program_reads {program : Program} (h : ∀ s ∈ program, s.InForm) {n : Nat}
    (hlength : (Stmt.terminalsAll program).length ≤ n) :
    (Grammar.program n).Reads (Stmt.terminalsAll program)
      (List.Forall₂ (fun s a => a.ResolvesTo s) program) (· = []) := by
  rw [Stmt.terminalsAll_eq] at hlength ⊢
  have hbody := body_rounds (statement_reads (n + 1)) (fun _ hts => statement_refuses hts (n + 1)) h
    (by omega)
  have hid : (Parser.pure id).Reads [] (fun f => ∀ body : List (Stmt Lexeme),
      List.Forall₂ (fun s a => a.ResolvesTo s) program body →
      List.Forall₂ (fun s a => a.ResolvesTo s) program (f body)) anything :=
    .pure fun _ hbody => hbody
  have hall := (hid.seq hbody.many fun _ _ => trivial).seqLeft
    (Parser.endOfText_reads.rule .endOfInput) fun _ hafter => .inl hafter
  rw [← List.append_nil (program.flatMap Stmt.terminals)]
  exact hall.rule _

end Cairn.Grammar
