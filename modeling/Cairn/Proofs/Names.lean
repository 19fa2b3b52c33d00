import Cairn.Parse
import Cairn.Proofs.Typing

/-!
# Cairn — the names of a program

Whatever text is parsed, each name in the program is a word of letters, digits
and underscores, and each number in it is finite. Both follow from what the
parts of a parser can yield: the grammar takes names from one place only, and
what it does with them later keeps them.

## Main statements

* `Grammar.program_yields` — the names of a tree that the grammar gives a text.
* `Program.uses_of_parse`  — the names and the literals of a parsed program.
-/

namespace Cairn

-- ---------------------------------------------------------------------------
-- Names and literals of a tree
-- ---------------------------------------------------------------------------

section

variable {L : Type} (N : String → Prop) (V : L → Prop)

/-- Every name in the expression satisfies `N`, and every literal `V`. -/
def Expr.Uses : Expr L → Prop
  | .literal _ value => V value
  | .name _ x => N x
  | .group _ inner => inner.Uses
  | .unary _ _ operand => operand.Uses
  | .binary _ _ left right => left.Uses ∧ right.Uses
  | .assign _ target value => N target.name ∧ value.Uses
  | .ternary _ cond onTrue onFalse => cond.Uses ∧ onTrue.Uses ∧ onFalse.Uses

/-- The same of what stands in the statement itself. -/
def Stmt.UsesItself : Stmt L → Prop
  | .declaration _ _ names => ∀ x ∈ names, N x.name
  | .expression _ e => e.Uses N V
  | .read _ names => ∀ x ∈ names, N x.name
  | .write _ exprs => ∀ e ∈ exprs, e.Uses N V
  | .ifThen _ cond _ => cond.Uses N V
  | .ifElse _ cond _ _ => cond.Uses N V
  | .whileDo _ cond _ => cond.Uses N V
  | .doWhile _ _ cond => cond.Uses N V
  | _ => True

/-- Every name in the statement satisfies `N`, and every literal `V`. -/
def Stmt.Uses : Stmt L → Prop :=
  Stmt.All (Stmt.UsesItself N V)

end

-- ---------------------------------------------------------------------------
-- What parsers yield
-- ---------------------------------------------------------------------------

/-- Whatever the parser reads satisfies `P`. -/
def Parser.Yields {α : Type} (p : Parser α) (P : α → Prop) : Prop :=
  ∀ c a d, p.run c = some (a, d) → P a

namespace Parser.Yields

variable {α β : Type} {P : α → Prop} {Q : β → Prop}

theorem map {p : Parser α} {f : α → β} (hp : p.Yields P) (hf : ∀ a, P a → Q (f a)) :
    (f <$> p).Yields Q := by
  intro c b d h
  obtain ⟨r, hr, heq⟩ := Option.map_eq_some_iff.mp h
  cases heq
  exact hf r.1 (hp c r.1 r.2 hr)

theorem seq {p : Parser (α → β)} {q : Parser α} (hp : p.Yields fun f => ∀ a, P a → Q (f a))
    (hq : q.Yields P) : (p <*> q).Yields Q := by
  intro c b d h
  change (Parser.seq p fun _ => q).run c = some (b, d) at h
  simp only [Parser.seq] at h
  split at h
  · cases h
  · next f d' hf =>
    obtain ⟨r, hr, heq⟩ := Option.map_eq_some_iff.mp h
    cases heq
    exact hp c f d' hf r.1 (hq _ r.1 r.2 hr)

theorem any (p : Parser α) : p.Yields fun _ => True := fun _ _ _ _ => trivial

theorem seqLeft {p : Parser α} (hp : p.Yields P) (q : Parser β) : (p <* q).Yields P :=
  seq (hp.map fun _ ha _ _ => ha) (any q)

theorem seqRight (p : Parser α) {q : Parser β} (hq : q.Yields Q) : (p *> q).Yields Q :=
  seq ((any p).map fun _ _ _ hb => hb) hq

theorem orElse {p q : Parser α} (hp : p.Yields P) (hq : q.Yields P) : (p <|> q).Yields P := by
  intro c a d h
  change (Parser.orElse p fun _ => q).run c = some (a, d) at h
  simp only [Parser.orElse] at h
  split at h
  · next r hr => exact hp c a d (hr.trans h)
  · exact hq c a d h

theorem optional {p : Parser α} (hp : p.Yields P) : p.optional.Yields fun o => ∀ a ∈ o, P a := by
  intro c o d h
  simp only [Parser.optional] at h
  split at h
  · next a d' hr =>
    cases h
    intro b hb
    cases hb
    exact hp c a d hr
  · cases h
    intro a ha
    cases ha

theorem many {p : Parser α} (hp : p.Yields P) : p.many.Yields fun as => ∀ a ∈ as, P a := by
  have hrounds : ∀ n c, ∀ a ∈ (p.roundsRun n c).1, P a := by
    intro n
    induction n with
    | zero =>
      intro c a ha
      cases ha
    | succ n ih =>
      intro c a ha
      rw [Parser.roundsRun] at ha
      split at ha
      · cases ha
      · next b d hb =>
        rcases List.mem_cons.mp ha with rfl | ha
        · exact hp _ a d hb
        · exact ih d a ha
  intro c as d h
  simp only [Parser.many] at h
  split at h
  · cases h
    simp
  · next a d' ha =>
    cases h
    intro b hb
    rcases List.mem_cons.mp hb with rfl | hb
    · exact hp c b d' ha
    · exact hrounds _ _ b hb

theorem rule {p : Parser α} (hp : p.Yields P) (r : Rule) : (p.rule r).Yields P := hp

theorem located {p : Parser (Location → α)} (hp : p.Yields fun f => ∀ loc, P (f loc)) :
    p.located.Yields P := by
  intro c a d h
  obtain ⟨r, hr, heq⟩ := Option.map_eq_some_iff.mp h
  cases heq
  exact hp c r.1 r.2 hr _

end Parser.Yields

theorem Parser.word_yields (measure : List Char → Option Nat) :
    (Parser.word measure).Yields fun cs => ∃ rest n, measure rest = some n ∧ cs = rest.take n := by
  intro c cs d h
  obtain ⟨n, hn, heq⟩ := Option.map_eq_some_iff.mp h
  cases heq
  exact ⟨c.rest, n, hn, rfl⟩

-- ---------------------------------------------------------------------------
-- The grammar of expressions
-- ---------------------------------------------------------------------------

/-- A word of letters, digits and underscores. -/
def IsName (x : String) : Prop :=
  x.toList ≠ [] ∧ ∀ c ∈ x.toList, Word.isWordChar c

theorem isName_of_ident {cs : List Char} {n : Nat} (h : Word.ident cs = some n) :
    cs.take n ≠ [] ∧ ∀ c ∈ cs.take n, Word.isWordChar c := by
  unfold Word.ident at h
  dsimp only at h
  split at h
  · cases h
  · next c word hword =>
    split at h
    · cases h
    · cases h
      have htake : cs.take (cs.takeWhile Word.isWordChar).length = cs.takeWhile Word.isWordChar :=
        (List.prefix_iff_eq_take.mp (List.takeWhile_prefix _)).symm
      rw [htake]
      refine ⟨by rw [hword]; exact List.cons_ne_nil _ _, fun c hc => ?_⟩
      exact List.all_eq_true.mp List.all_takeWhile c hc

/-- The names in a tree that the grammar builds. -/
def Expr.Named (e : Expr Lexeme) : Prop :=
  e.Uses IsName fun _ => True

theorem Expr.named_attach (op : BinaryOp) {right e : Expr Lexeme} (hright : right.Named)
    (he : e.Named) : (Expr.attach op right e).Named := by
  induction e with
  | binary loc op' left right' ihl ihr =>
    rw [Expr.attach]
    split
    · exact ⟨he.1, ihr he.2⟩
    · exact ⟨he, hright⟩
  | _ => exact ⟨he, hright⟩

theorem Expr.named_ofChain {first : Expr Lexeme} {more : List (BinaryOp × Expr Lexeme)}
    (hfirst : first.Named) (hmore : ∀ next ∈ more, next.2.Named) :
    (Expr.ofChain first more).Named := by
  induction more generalizing first with
  | nil => exact hfirst
  | cons next more ih =>
    exact ih (Expr.named_attach next.1 (hmore next List.mem_cons_self) hfirst)
      fun later hlater => hmore later (List.mem_cons_of_mem _ hlater)

theorem Expr.named_ofOperand (ops : List (UnaryOp × Location)) {operand : Expr Lexeme}
    (h : operand.Named) : (Expr.ofOperand ops operand).Named := by
  induction ops with
  | nil => exact h
  | cons op ops ih => exact ih

namespace Grammar

open Parser.Yields

theorem ident_yields : ident.Yields fun x => IsName x.name := by
  refine rule (located ((Parser.word_yields _).map ?_)) _
  rintro cs ⟨rest, n, hn, rfl⟩ loc
  obtain ⟨hne, hword⟩ := isName_of_ident hn
  exact ⟨by simpa using hne, by simpa using hword⟩

theorem literal_yields (r : Rule) (value : Parser Lexeme) : (literal r value).Yields Expr.Named :=
  rule (located ((any value).map fun _ _ _ => trivial)) r

variable {e : Parser (Expr Lexeme)}

theorem primary_yields (he : e.Yields Expr.Named) : (primary e).Yields Expr.Named := by
  have hname : name.Yields Expr.Named := ident_yields.map fun _ hx => hx
  have hgroup : (group e).Yields Expr.Named :=
    rule (located (seqLeft ((seqRight _ he).map fun _ hinner _ => hinner) _)) _
  exact orElse (literal_yields _ _) <| orElse (literal_yields _ _) <|
    orElse (literal_yields _ _) <| orElse (literal_yields _ _) <| orElse hname hgroup

theorem binary_yields (he : e.Yields Expr.Named) : (binary e).Yields Expr.Named := by
  have hoperand : (operand e).Yields Expr.Named :=
    seq ((any _).map fun ops _ _ => Expr.named_ofOperand ops) (primary_yields he)
  have hmore : (Prod.mk <$> anyBinaryOp <*> operand e).Yields fun next => next.2.Named :=
    seq ((any _).map fun _ _ _ h => h) hoperand
  have hchain : (Expr.ofChain <$> operand e).Yields fun f => ∀ more,
      (∀ next ∈ more, next.2.Named) → (f more).Named :=
    hoperand.map fun _ hfirst _ hmore => Expr.named_ofChain hfirst hmore
  exact rule (seq hchain hmore.many) _

theorem ternary_yields (he : e.Yields Expr.Named) : (ternary e).Yields Expr.Named := by
  have hbranches : (Prod.mk <$> (symbol "?" *> e) <*> (symbol ":" *> e)).Yields fun branches =>
      branches.1.Named ∧ branches.2.Named :=
    seq ((seqRight _ he).map fun _ ht _ hf => ⟨ht, hf⟩) (seqRight _ he)
  refine rule (located (seq ((binary_yields he).map fun cond hcond branches hb loc => ?_)
    hbranches.optional)) _
  cases branches with
  | none => exact hcond
  | some branches => exact ⟨hcond, hb branches rfl⟩

theorem assignment_yields (he : e.Yields Expr.Named) : (assignment e).Yields Expr.Named :=
  rule (located (seq (seqLeft (ident_yields.map fun _ hx _ hv _ => ⟨hx, hv⟩) _) he)) _

theorem expr_yields (n : Nat) : (expr n).Yields Expr.Named := by
  induction n with
  | zero =>
    intro c a d h
    cases h
  | succ n ih => exact rule (orElse (assignment_yields ih) (ternary_yields ih)) _

end Grammar

-- ---------------------------------------------------------------------------
-- The grammar of statements
-- ---------------------------------------------------------------------------

theorem Stmt.allOf_iff {L : Type} {P : Stmt L → Prop} {body : List (Stmt L)} :
    Stmt.AllOf P body ↔ ∀ s ∈ body, s.All P := by
  induction body with
  | nil => simp [Stmt.AllOf]
  | cons s rest ih => rw [Stmt.AllOf, ih, List.forall_mem_cons]

/-- The names in a tree that the grammar builds. -/
def Stmt.Named (s : Stmt Lexeme) : Prop :=
  s.Uses IsName fun _ => True

namespace Grammar

open Parser.Yields

theorem commaList_yields {α : Type} {P : α → Prop} {p : Parser α} (hp : p.Yields P) :
    (commaList p).Yields fun as => ∀ a ∈ as, P a := by
  have hfirst : (List.cons <$> p).Yields fun f => ∀ more, (∀ a ∈ more, P a) → ∀ a ∈ f more, P a :=
    hp.map fun _ ha _ hmore => List.forall_mem_cons.mpr ⟨ha, hmore⟩
  exact seq hfirst (seqRight _ hp).many

variable {e : Parser (Expr Lexeme)} {s : Parser (Stmt Lexeme)}

theorem condition_yields (he : e.Yields Expr.Named) : (condition e).Yields Expr.Named :=
  seqLeft (seqRight _ he) _

theorem block_yields (hs : s.Yields Stmt.Named) : (block s).Yields Stmt.Named :=
  rule (located (seqLeft ((seqRight _ hs.many).map fun _ hbody _ => Stmt.allOf_iff.mpr hbody) _)) _

theorem ifStmt_yields (he : e.Yields Expr.Named) (hs : s.Yields Stmt.Named) :
    (ifStmt e s).Yields Stmt.Named := by
  have hcond := seqRight (keyword .if) (condition_yields he)
  have helse := (seqRight (keyword .else) hs).optional
  refine rule (located (seq (seq (hcond.map fun cond hcond onTrue htrue onFalse hfalse loc => ?_)
    hs) helse)) _
  cases onFalse with
  | none => exact ⟨hcond, htrue⟩
  | some onFalse => exact ⟨hcond, htrue, hfalse onFalse rfl⟩

theorem whileDo_yields (he : e.Yields Expr.Named) (hs : s.Yields Stmt.Named) :
    (whileDo e s).Yields Stmt.Named := by
  have hcond := seqRight (keyword .while) (condition_yields he)
  exact rule (located (seq (hcond.map fun _ hcond _ hbody _ => ⟨hcond, hbody⟩) hs)) _

theorem doWhile_yields (he : e.Yields Expr.Named) (hs : s.Yields Stmt.Named) :
    (doWhile e s).Yields Stmt.Named := by
  have hbody := seqRight (keyword .do) hs
  have hcond := seqRight (keyword .while) (condition_yields he)
  exact rule (located (seqLeft (seq (hbody.map fun _ hbody _ hcond _ => ⟨hcond, hbody⟩) hcond) _)) _

theorem statement_yields (n : Nat) : (statement n).Yields Stmt.Named := by
  induction n with
  | zero =>
    intro c a d h
    cases h
  | succ n ih =>
    have he := expr_yields (n + 1)
    have hempty : empty.Yields Stmt.Named := rule (located ((any _).map fun _ _ _ => trivial)) _
    have hdeclaration : declaration.Yields Stmt.Named :=
      rule (located (seqLeft (seq ((any _).map fun _ _ _ hnames _ => hnames)
        (commaList_yields ident_yields)) _)) _
    have hread : read.Yields Stmt.Named :=
      rule (located (seqLeft ((seqRight _ (commaList_yields ident_yields)).map
        fun _ hnames _ => hnames) _)) _
    have hwrite : (write (expr (n + 1))).Yields Stmt.Named :=
      rule (located (seqLeft ((seqRight _ (commaList_yields he)).map fun _ hexprs _ => hexprs) _)) _
    have hexpression : (expression (expr (n + 1))).Yields Stmt.Named :=
      rule (located (seqLeft (he.map fun _ he _ => he) _)) _
    exact orElse hempty <| orElse (block_yields ih) <| orElse hdeclaration <| orElse hread <|
      orElse hwrite <| orElse (ifStmt_yields he ih) <| orElse (whileDo_yields he ih) <|
      orElse (doWhile_yields he ih) hexpression

/-- **The names of a tree** that the grammar gives a text are words. -/
theorem program_yields (n : Nat) : (program n).Yields fun body => ∀ s ∈ body, s.Named := by
  have hbody := (statement_yields (n + 1)).many
  have hid : (Parser.pure id).Yields fun f => ∀ body : List (Stmt Lexeme),
      (∀ s ∈ body, s.Named) → ∀ s ∈ f body, s.Named := by
    intro c f d h
    cases h
    exact fun _ hbody => hbody
  exact rule (seqLeft (seq hid hbody) _) _

end Grammar

-- ---------------------------------------------------------------------------
-- Resolving
-- ---------------------------------------------------------------------------

/-- Whatever the computation returns satisfies `P`. -/
def Gives {ε α : Type} (x : Except ε α) (P : α → Prop) : Prop :=
  ∀ a, x = .ok a → P a

namespace Gives

variable {ε α β : Type} {P : α → Prop} {Q : β → Prop}

theorem ok {a : α} (h : P a) : Gives (.ok a : Except ε α) P := by
  intro b hb
  cases hb
  exact h

theorem bind {x : Except ε α} {f : α → Except ε β} (hx : Gives x P)
    (hf : ∀ a, P a → Gives (f a) Q) : Gives (x >>= f) Q := by
  intro b h
  cases x with
  | error fault => cases h
  | ok a => exact hf a (hx a rfl) b h

theorem mapM {f : α → Except ε β} {as : List α} (hf : ∀ a ∈ as, Gives (f a) Q) :
    Gives (as.mapM f) fun bs => ∀ b ∈ bs, Q b := by
  induction as with
  | nil => exact ok (List.forall_mem_nil _)
  | cons a rest ih =>
    rw [List.mapM_cons]
    refine bind (hf a List.mem_cons_self) fun b hb => ?_
    refine bind (ih fun a' ha' => hf a' (List.mem_cons_of_mem _ ha')) fun bs hbs => ?_
    exact ok (List.forall_mem_cons.mpr ⟨hb, hbs⟩)

theorem nested_of_lt {body : Nat → Except ParseError α} {limit depth : Nat} (loc : Location)
    (h : depth < limit → Gives (body (depth + 1)) P) :
    Gives (Cairn.nested limit depth loc body) P := by
  rw [Cairn.nested]
  split
  · exact nofun
  · exact h (by omega)

theorem nested {body : Nat → Except ParseError α} (limit depth : Nat) (loc : Location)
    (h : Gives (body (depth + 1)) P) : Gives (Cairn.nested limit depth loc body) P :=
  nested_of_lt loc fun _ => h

end Gives

/-- A computation on fixed values is evaluated up to what is asked of its value. -/
theorem exists_ok_of_toOption {ε α β : Type} {x : Except ε α} {f : α → β} {b : β}
    (h : x.toOption.map f = some b) : ∃ a, x = .ok a ∧ f a = b := by
  cases x with
  | error fault => cases h
  | ok a => exact ⟨a, rfl, Option.some.inj h⟩

/-- The literal is not an infinity, and it is a number if it is a float. -/
def Literal.Finite : Literal → Prop
  | .float x => x.isFinite = true
  | _ => True

theorem Lexeme.finite_of_read? {lexeme : Lexeme} {value : Literal}
    (h : lexeme.read? = some value) : value.Finite := by
  cases lexeme with
  | int digits =>
    obtain ⟨i, -, rfl⟩ := Option.map_eq_some_iff.mp h
    trivial
  | float digits =>
    rw [Lexeme.read?] at h
    split at h
    · split at h
      · next hfinite =>
        cases h
        exact hfinite
      · cases h
    · cases h
  | bool value =>
    cases h
    trivial
  | str text =>
    cases h
    trivial

variable {limit : Nat}

theorem Expr.resolve_gives {e : Expr Lexeme} (h : e.Named) (depth : Nat) :
    Gives (e.resolve limit depth) (Expr.Uses IsName Literal.Finite) := by
  induction e generalizing depth with
  | literal loc lexeme =>
    rw [Expr.resolve]
    split
    · next value hread => exact .ok (Lexeme.finite_of_read? hread)
    · exact nofun
  | name loc x => exact .ok h
  | group loc inner ih =>
    exact (Gives.nested limit depth loc (ih h _)).bind fun _ hinner => .ok hinner
  | unary loc op operand ih => exact (ih h depth).bind fun _ hoperand => .ok hoperand
  | binary loc op left right ihl ihr =>
    refine (ihl h.1 depth).bind fun _ hleft => ?_
    exact (ihr h.2 depth).bind fun _ hright => .ok ⟨hleft, hright⟩
  | assign loc target value ih =>
    exact (Gives.nested limit depth _ (ih h.2 _)).bind fun _ hvalue => .ok ⟨h.1, hvalue⟩
  | ternary loc cond onTrue onFalse ihc iht ihf =>
    refine (ihc h.1 depth).bind fun _ hcond => ?_
    have hbranches : Gives (onTrue.resolve limit (depth + 1) >>= fun t =>
        onFalse.resolve limit (depth + 1) >>= fun f => return (t, f)) fun branches =>
        branches.1.Uses IsName Literal.Finite ∧ branches.2.Uses IsName Literal.Finite :=
      (iht h.2.1 _).bind fun _ ht => (ihf h.2.2 _).bind fun _ hf => .ok ⟨ht, hf⟩
    exact (Gives.nested limit depth loc hbranches).bind fun _ hb => .ok ⟨hcond, hb⟩

mutual

theorem Stmt.resolve_gives {s : Stmt Lexeme} (h : s.Named) (depth : Nat) :
    Gives (s.resolve limit depth) (Stmt.Uses IsName Literal.Finite) := by
  cases s with
  | empty loc => exact .ok h
  | declaration loc ty names => exact .ok h
  | expression loc e => exact (Expr.resolve_gives h depth).bind fun _ he => .ok he
  | read loc names => exact .ok h
  | write loc exprs =>
    have hexprs : Gives (exprs.mapM (Expr.resolve limit depth)) _ :=
      .mapM fun e he => Expr.resolve_gives (h e he) depth
    exact hexprs.bind fun _ hexprs => .ok hexprs
  | block loc body =>
    have hbody := Stmt.resolveAll_gives h (depth + 1)
    exact (Gives.nested limit depth loc hbody).bind fun _ hbody => .ok hbody
  | ifThen loc cond onTrue =>
    refine (Expr.resolve_gives h.1 depth).bind fun _ hcond => ?_
    have htrue := Stmt.resolve_gives h.2 (depth + 1)
    exact (Gives.nested limit depth _ htrue).bind fun _ htrue => .ok ⟨hcond, htrue⟩
  | ifElse loc cond onTrue onFalse =>
    refine (Expr.resolve_gives h.1 depth).bind fun _ hcond => ?_
    have htrue := Stmt.resolve_gives h.2.1 (depth + 1)
    have hfalse := Stmt.resolve_gives h.2.2 (depth + 1)
    refine (Gives.nested limit depth _ htrue).bind fun _ htrue => ?_
    exact (Gives.nested limit depth _ hfalse).bind fun _ hfalse => .ok ⟨hcond, htrue, hfalse⟩
  | whileDo loc cond body =>
    refine (Expr.resolve_gives h.1 depth).bind fun _ hcond => ?_
    have hbody := Stmt.resolve_gives h.2 (depth + 1)
    exact (Gives.nested limit depth _ hbody).bind fun _ hbody => .ok ⟨hcond, hbody⟩
  | doWhile loc body cond =>
    have hbody := Stmt.resolve_gives h.2 (depth + 1)
    refine (Gives.nested limit depth _ hbody).bind fun _ hbody => ?_
    exact (Expr.resolve_gives h.1 depth).bind fun _ hcond => .ok ⟨hcond, hbody⟩

theorem Stmt.resolveAll_gives {body : List (Stmt Lexeme)}
    (h : Stmt.AllOf (Stmt.UsesItself IsName fun _ => True) body) (depth : Nat) :
    Gives (Stmt.resolveAll limit depth body)
      (Stmt.AllOf (Stmt.UsesItself IsName Literal.Finite)) := by
  cases body with
  | nil => exact .ok trivial
  | cons s rest =>
    refine (Stmt.resolve_gives h.1 depth).bind fun _ hs => ?_
    exact (Stmt.resolveAll_gives h.2 depth).bind fun _ hrest => .ok ⟨hs, hrest⟩

end

/-- A parsed program is resolved from the tree that the grammar gives its text. -/
theorem exists_of_parseWithin {source : String} {program : Program}
    (h : parseWithin limit source = .ok program) :
    ∃ body, recognize source.toList = some body ∧
      Stmt.resolveAll limit 0 body = .ok program := by
  unfold parseWithin at h
  split at h
  · cases h
  · split at h
    · cases h
    · next body hbody => exact ⟨body, hbody, h⟩

/-- **A parsed program** names words only, and its numbers are finite. -/
theorem Program.uses_of_parse {source : String} {program : Program}
    (h : parse source = .ok program) :
    (Program.asBlock program).Uses IsName Literal.Finite := by
  obtain ⟨body, hbody, hresolve⟩ := exists_of_parseWithin h
  obtain ⟨r, hrun, rfl⟩ := Option.map_eq_some_iff.mp hbody
  have hnamed := Grammar.program_yields _ _ r.1 r.2 hrun
  exact Stmt.resolveAll_gives (Stmt.allOf_iff.mpr hnamed) 0 program hresolve

end Cairn
