import Cairn.Proofs.Shapes

/-!
# Cairn — the limit on levels is exact

A path from the root of a tree to one of its leaves goes one level down where it enters
parentheses, the value of an assignment, the branches of a choice, a block, or the body
of a conditional or a loop. If the numbers of a tree have values, the tree is resolved
exactly if none of its paths goes down past the limit, and otherwise it fails for its
depth.

The pass over a record counts the levels in a counter that all parts of the record
share. It gets the counter back as it was from each of them, whatever their shape and
whether they fail or not.

## Main definitions

* `Expr.descents`, `Stmt.descents` — how far the paths of a tree go down.
* `Expr.lexemes`, `Stmt.lexemes`   — the literals of a tree.
* `Build.Restores` — a computation that gives the counter back.

## Main statements

* `Stmt.resolveAll_exactly` — a tree is resolved if all its paths are within the limit.
* `Pair.part_restores`      — what is built from a pair gives the counter back.
* `Program.limit_exact`     — a text is parsed if all paths of its tree are.
-/

namespace Cairn

-- ---------------------------------------------------------------------------
-- Paths
-- ---------------------------------------------------------------------------

/-- The paths with one more level at their start. If there are none, what lies below is
empty, and a path ends there. -/
def oneDown : List Nat → List Nat
  | [] => [1]
  | n :: ns => (n :: ns).map (· + 1)

section

variable {L : Type}

/-- For each path from the expression to a leaf, how many levels it goes down. -/
def Expr.descents : Expr L → List Nat
  | .literal _ _ => [0]
  | .name _ _ => [0]
  | .group _ inner => oneDown inner.descents
  | .unary _ _ operand => operand.descents
  | .binary _ _ left right => left.descents ++ right.descents
  | .assign _ _ value => oneDown value.descents
  | .ternary _ cond onTrue onFalse =>
    cond.descents ++ oneDown (onTrue.descents ++ onFalse.descents)

/-- The literals of an expression. -/
def Expr.lexemes : Expr L → List L
  | .literal _ value => [value]
  | .name _ _ => []
  | .group _ inner => inner.lexemes
  | .unary _ _ operand => operand.lexemes
  | .binary _ _ left right => left.lexemes ++ right.lexemes
  | .assign _ _ value => value.lexemes
  | .ternary _ cond onTrue onFalse => cond.lexemes ++ (onTrue.lexemes ++ onFalse.lexemes)

mutual

/-- For each path from the statement to a leaf, how many levels it goes down. A block
that is a body goes down twice. -/
def Stmt.descents : Stmt L → List Nat
  | .empty _ => [0]
  | .declaration _ _ _ => [0]
  | .expression _ e => e.descents
  | .read _ _ => [0]
  | .write _ exprs => exprs.flatMap Expr.descents
  | .block _ body => oneDown (descentsAll body)
  | .ifThen _ cond onTrue => cond.descents ++ oneDown onTrue.descents
  | .ifElse _ cond onTrue onFalse =>
    cond.descents ++ (oneDown onTrue.descents ++ oneDown onFalse.descents)
  | .whileDo _ cond body => cond.descents ++ oneDown body.descents
  | .doWhile _ body cond => oneDown body.descents ++ cond.descents

/-- The paths of all the statements. -/
def Stmt.descentsAll : List (Stmt L) → List Nat
  | [] => []
  | s :: rest => s.descents ++ descentsAll rest

end

mutual

/-- The literals of a statement. -/
def Stmt.lexemes : Stmt L → List L
  | .empty _ => []
  | .declaration _ _ _ => []
  | .expression _ e => e.lexemes
  | .read _ _ => []
  | .write _ exprs => exprs.flatMap Expr.lexemes
  | .block _ body => lexemesAll body
  | .ifThen _ cond onTrue => cond.lexemes ++ onTrue.lexemes
  | .ifElse _ cond onTrue onFalse => cond.lexemes ++ (onTrue.lexemes ++ onFalse.lexemes)
  | .whileDo _ cond body => cond.lexemes ++ body.lexemes
  | .doWhile _ body cond => body.lexemes ++ cond.lexemes

/-- The literals of all the statements. -/
def Stmt.lexemesAll : List (Stmt L) → List L
  | [] => []
  | s :: rest => s.lexemes ++ lexemesAll rest

end

end

-- ---------------------------------------------------------------------------
-- Success within the limit, and failure past it
-- ---------------------------------------------------------------------------

/-- From a level on, all paths stay within the limit. -/
def Within (limit depth : Nat) (paths : List Nat) : Prop :=
  ∀ n ∈ paths, depth + n ≤ limit

theorem within_append {limit depth : Nat} {paths paths' : List Nat} :
    Within limit depth (paths ++ paths') ↔
      Within limit depth paths ∧ Within limit depth paths' :=
  List.forall_mem_append

/-- One level down, the next level has to be within the limit itself. -/
theorem within_oneDown {limit depth : Nat} {paths : List Nat} :
    Within limit depth (oneDown paths) ↔
      depth + 1 ≤ limit ∧ Within limit (depth + 1) paths := by
  cases paths with
  | nil => simp [Within, oneDown]
  | cons n ns =>
    have hmap : Within limit depth (oneDown (n :: ns)) ↔ Within limit (depth + 1) (n :: ns) := by
      refine List.forall_mem_map.trans ?_
      refine forall₂_congr fun m _ => ?_
      omega
    refine hmap.trans (iff_and_self.mpr fun h => ?_)
    have := h n List.mem_cons_self
    omega

/-- The computation, which starts at the given level, succeeds if all the paths are
within the limit, and fails one level past it if they are not. -/
structure Exactly {α : Type} (limit depth : Nat) (paths : List Nat) (x : Except ParseError α) :
    Prop where
  succeeds : Within limit depth paths → ∃ a, x = .ok a
  fails : ¬ Within limit depth paths → ∃ loc, x = .error ⟨.tooDeep (limit + 1) limit, loc⟩

namespace Exactly

variable {α β : Type} {limit depth : Nat} {paths paths' : List Nat}

theorem ok (a : α) (hdepth : depth ≤ limit) :
    Exactly limit depth [0] (.ok a : Except ParseError α) := by
  refine ⟨fun _ => ⟨a, rfl⟩, fun h => absurd ?_ h⟩
  intro n hn
  rw [List.mem_singleton.mp hn]
  exact hdepth

/-- Where there is no path, nothing can fail. -/
theorem ok_nil (a : α) : Exactly limit depth [] (.ok a : Except ParseError α) :=
  ⟨fun _ => ⟨a, rfl⟩, fun h => absurd (List.forall_mem_nil _) h⟩

/-- The paths of the first computation come first. -/
theorem bind {x : Except ParseError α} {f : α → Except ParseError β}
    (hx : Exactly limit depth paths x) (hf : ∀ a, Exactly limit depth paths' (f a)) :
    Exactly limit depth (paths ++ paths') (x >>= f) := by
  by_cases hwithin : Within limit depth paths
  · obtain ⟨a, rfl⟩ := hx.succeeds hwithin
    have hiff : Within limit depth (paths ++ paths') ↔ Within limit depth paths' :=
      within_append.trans (and_iff_right hwithin)
    exact ⟨fun h => (hf a).succeeds (hiff.mp h), fun h => (hf a).fails (mt hiff.mpr h)⟩
  · obtain ⟨loc, rfl⟩ := hx.fails hwithin
    exact ⟨fun h => absurd (within_append.mp h).1 hwithin, fun _ => ⟨loc, rfl⟩⟩

theorem bind_pure {x : Except ParseError α} (hx : Exactly limit depth paths x) (f : α → β) :
    Exactly limit depth paths (x >>= fun a => pure (f a)) := by
  have hboth := hx.bind fun a => ok_nil (f a)
  rwa [List.append_nil] at hboth

theorem nested {body : Nat → Except ParseError α} (loc : Location) (hdepth : depth ≤ limit)
    (h : depth + 1 ≤ limit → Exactly limit (depth + 1) paths (body (depth + 1))) :
    Exactly limit depth (oneDown paths) (Cairn.nested limit depth loc body) := by
  unfold Cairn.nested
  by_cases hnext : limit < depth + 1
  · have hlast : depth + 1 = limit + 1 := by omega
    rw [if_pos hnext, hlast]
    exact ⟨fun hwithin => absurd (within_oneDown.mp hwithin).1 (by omega), fun _ => ⟨loc, rfl⟩⟩
  · rw [if_neg hnext]
    have hbody := h (by omega)
    have hiff : Within limit depth (oneDown paths) ↔ Within limit (depth + 1) paths :=
      within_oneDown.trans (and_iff_right (by omega))
    exact ⟨fun hwithin => hbody.succeeds (hiff.mp hwithin),
      fun hnot => hbody.fails (mt hiff.mpr hnot)⟩

theorem mapM {f : α → Except ParseError β} {g : α → List Nat} {as : List α}
    (h : ∀ a ∈ as, Exactly limit depth (g a) (f a)) :
    Exactly limit depth (as.flatMap g) (as.mapM f) := by
  induction as with
  | nil => exact ok_nil []
  | cons a rest ih =>
    obtain ⟨hfirst, hrest⟩ := List.forall_mem_cons.mp h
    rw [List.mapM_cons, List.flatMap_cons]
    exact hfirst.bind fun b => (ih hrest).bind_pure (b :: ·)

end Exactly

/-- Each of the literals has a value. -/
def Readable (lexemes : List Lexeme) : Prop :=
  ∀ lexeme ∈ lexemes, lexeme.read?.isSome

theorem readable_append {lexemes lexemes' : List Lexeme} :
    Readable (lexemes ++ lexemes') ↔ Readable lexemes ∧ Readable lexemes' :=
  List.forall_mem_append

section

variable {limit : Nat}

theorem Expr.resolve_exactly {e : Expr Lexeme} (h : Readable e.lexemes) {depth : Nat}
    (hdepth : depth ≤ limit) : Exactly limit depth e.descents (e.resolve limit depth) := by
  induction e generalizing depth with
  | literal loc lexeme =>
    obtain ⟨value, hvalue⟩ := Option.isSome_iff_exists.mp (h lexeme (List.mem_singleton.mpr rfl))
    rw [Expr.resolve, hvalue]
    exact .ok _ hdepth
  | name loc x => exact .ok _ hdepth
  | group loc inner ih => exact (Exactly.nested loc hdepth (ih h)).bind_pure _
  | unary loc op operand ih => exact (ih h hdepth).bind_pure _
  | binary loc op left right ihl ihr =>
    obtain ⟨hleft, hright⟩ := readable_append.mp h
    exact (ihl hleft hdepth).bind fun l => (ihr hright hdepth).bind_pure _
  | assign loc target value ih => exact (Exactly.nested _ hdepth (ih h)).bind_pure _
  | ternary loc cond onTrue onFalse ihc iht ihf =>
    obtain ⟨hcond, hbranches⟩ := readable_append.mp h
    obtain ⟨htrue, hfalse⟩ := readable_append.mp hbranches
    refine (ihc hcond hdepth).bind fun c => ?_
    refine (Exactly.nested loc hdepth fun hnext => ?_).bind_pure _
    exact (iht htrue hnext).bind fun t => (ihf hfalse hnext).bind_pure _

mutual

theorem Stmt.resolve_exactly (s : Stmt Lexeme) (h : Readable s.lexemes) {depth : Nat}
    (hdepth : depth ≤ limit) : Exactly limit depth s.descents (s.resolve limit depth) := by
  cases s with
  | empty loc => exact .ok _ hdepth
  | declaration loc ty names => exact .ok _ hdepth
  | expression loc e => exact (Expr.resolve_exactly h hdepth).bind_pure _
  | read loc names => exact .ok _ hdepth
  | write loc exprs =>
    refine (Exactly.mapM fun e he => Expr.resolve_exactly ?_ hdepth).bind_pure _
    exact fun lexeme hlexeme => h lexeme (List.mem_flatMap_of_mem he hlexeme)
  | block loc body =>
    have hbody : depth + 1 ≤ limit → _ := fun hnext => Stmt.resolveAll_exactly body h hnext
    exact (Exactly.nested loc hdepth hbody).bind_pure _
  | ifThen loc cond onTrue =>
    obtain ⟨hcond, htrue⟩ := readable_append.mp h
    have htrue : depth + 1 ≤ limit → _ := fun hnext => Stmt.resolve_exactly onTrue htrue hnext
    refine (Expr.resolve_exactly hcond hdepth).bind fun c => ?_
    exact (Exactly.nested _ hdepth htrue).bind_pure _
  | ifElse loc cond onTrue onFalse =>
    obtain ⟨hcond, hbranches⟩ := readable_append.mp h
    obtain ⟨htrue, hfalse⟩ := readable_append.mp hbranches
    have htrue : depth + 1 ≤ limit → _ := fun hnext => Stmt.resolve_exactly onTrue htrue hnext
    have hfalse : depth + 1 ≤ limit → _ := fun hnext => Stmt.resolve_exactly onFalse hfalse hnext
    refine (Expr.resolve_exactly hcond hdepth).bind fun c => ?_
    refine (Exactly.nested _ hdepth htrue).bind fun t => ?_
    exact (Exactly.nested _ hdepth hfalse).bind_pure _
  | whileDo loc cond body =>
    obtain ⟨hcond, hbody⟩ := readable_append.mp h
    have hbody : depth + 1 ≤ limit → _ := fun hnext => Stmt.resolve_exactly body hbody hnext
    refine (Expr.resolve_exactly hcond hdepth).bind fun c => ?_
    exact (Exactly.nested _ hdepth hbody).bind_pure _
  | doWhile loc body cond =>
    obtain ⟨hbody, hcond⟩ := readable_append.mp h
    have hbody : depth + 1 ≤ limit → _ := fun hnext => Stmt.resolve_exactly body hbody hnext
    refine (Exactly.nested _ hdepth hbody).bind fun b => ?_
    exact (Expr.resolve_exactly hcond hdepth).bind_pure _

theorem Stmt.resolveAll_exactly (body : List (Stmt Lexeme)) (h : Readable (Stmt.lexemesAll body))
    {depth : Nat} (hdepth : depth ≤ limit) :
    Exactly limit depth (Stmt.descentsAll body) (Stmt.resolveAll limit depth body) := by
  cases body with
  | nil => exact .ok_nil []
  | cons s rest =>
    obtain ⟨hfirst, hrest⟩ := readable_append.mp h
    refine (Stmt.resolve_exactly s hfirst hdepth).bind fun s' => ?_
    exact (Stmt.resolveAll_exactly rest hrest hdepth).bind_pure _

end

end

-- ---------------------------------------------------------------------------
-- The counter
-- ---------------------------------------------------------------------------

/-- Wherever the counter stands, the computation gives it back as it was, with an error or
with a value of which `P` holds. -/
def Build.Restores {α : Type} (P : α → Prop) (x : Build α) : Prop :=
  ∀ depth r depth', x depth = some (r, depth') → depth' = depth ∧ ∀ a, r = .ok a → P a

namespace Build.Restores

variable {α β : Type} {P : α → Prop} {Q : β → Prop}

theorem pure {a : α} (h : P a) : (Pure.pure a : Build α).Restores P := by
  rintro depth r depth' ⟨⟩
  refine ⟨rfl, ?_⟩
  rintro _ ⟨⟩
  exact h

theorem ofExcept (x : Except ParseError α) : (Build.ofExcept x).Restores fun _ => True := by
  rintro depth r depth' ⟨⟩
  exact ⟨rfl, fun _ _ => trivial⟩

theorem fail (error : ParseError) : (Build.fail error : Build α).Restores P := by
  rintro depth r depth' ⟨⟩
  refine ⟨rfl, ?_⟩
  rintro _ ⟨⟩

theorem stuck : (Build.stuck : Build α).Restores P := by
  rintro depth r depth' ⟨⟩

theorem bind {x : Build α} {f : α → Build β} (hx : x.Restores P)
    (hf : ∀ a, P a → (f a).Restores Q) : (x >>= f).Restores Q := by
  intro depth r depth' hrun
  change Build.bind x f depth = some (r, depth') at hrun
  unfold Build.bind at hrun
  split at hrun
  · cases hrun
  · next error between hfirst =>
    cases hrun
    refine ⟨(hx depth _ _ hfirst).1, ?_⟩
    rintro _ ⟨⟩
  · next a between hfirst =>
    obtain ⟨rfl, ha⟩ := hx depth _ _ hfirst
    exact hf a (ha a rfl) _ _ _ hrun

theorem attempt {x : Build α} (hx : x.Restores P) : x.attempt.Restores fun _ => True := by
  intro depth r depth' hrun
  obtain ⟨r', hfirst, heq⟩ := Option.map_eq_some_iff.mp hrun
  cases heq
  exact ⟨(hx depth _ _ hfirst).1, fun _ _ => trivial⟩

/-- The way back up does not depend on what happened below. -/
theorem nested (limit : Nat) (loc : Location) (x : Build α) :
    (Build.nested limit loc x).Restores fun _ => True := by
  intro depth r depth' hrun
  unfold Build.nested at hrun
  split at hrun
  · cases hrun
    exact ⟨rfl, fun _ _ => trivial⟩
  · obtain ⟨r', -, heq⟩ := Option.map_eq_some_iff.mp hrun
    cases heq
    exact ⟨rfl, fun _ _ => trivial⟩

theorem each {f : α → Build β} {as : List α} (h : ∀ a ∈ as, (f a).Restores fun _ => True) :
    (Build.each f as).Restores fun _ => True := by
  induction as with
  | nil => exact pure trivial
  | cons a rest ih =>
    obtain ⟨hfirst, hrest⟩ := List.forall_mem_cons.mp h
    exact hfirst.bind fun b _ => (ih hrest).bind fun bs _ => pure trivial

end Build.Restores

namespace Part

/-- What is built from the part gives the counter back. -/
structure Restores (part : Part) : Prop where
  expr : part.expr.Restores fun _ => True
  statement : part.statement.Restores fun _ => True

theorem telling_restores {parts : List Part} (h : ∀ part ∈ parts, part.Restores) :
    ∀ part ∈ telling parts, part.Restores :=
  fun part hpart => h part (List.mem_of_mem_filter hpart)

theorem expect_restores (loc : Location) {parts : List Part} (h : ∀ part ∈ parts, part.Restores) :
    (expect loc parts).Restores fun next =>
      next.1.Restores ∧ ∀ part ∈ next.2, part.Restores := by
  cases parts with
  | nil => exact .fail _
  | cons part rest => exact .pure (List.forall_mem_cons.mp h)

theorem idents_restores (parts : List Part) : (idents parts).Restores fun _ => True := by
  refine .each fun part _ => ?_
  split
  · exact .pure trivial
  · exact .fail _

theorem typeName_restores (part : Part) : part.typeName.Restores fun _ => True := by
  unfold typeName
  split
  · exact .fail _
  · split
    · exact .pure trivial
    · exact .pure trivial
    · exact .pure trivial
    · exact .pure trivial
    · exact .fail _

theorem number_restores (pair : Pair) (lexeme : Lexeme) :
    (number pair lexeme).Restores fun _ => True := by
  unfold number
  split
  · exact .pure trivial
  · exact .fail _

mutual

/-- What is behind an operand was behind it before. -/
theorem operand_restores (n : Nat) {parts : List Part} (h : ∀ part ∈ parts, part.Restores) :
    (operand n parts).Restores fun r => ∀ part ∈ r.2, part.Restores := by
  match n, parts with
  | 0, _ =>
    rw [operand]
    exact .stuck
  | n + 1, [] =>
    rw [operand]
    · exact .stuck
    · rintro ⟨⟩
  | n + 1, part :: rest =>
    obtain ⟨hpart, hrest⟩ := List.forall_mem_cons.mp h
    rw [operand]
    split
    · exact hpart.expr.attempt.bind fun _ _ => .pure hrest
    · refine (operand_restores n hrest).bind fun inner hinner => ?_
      exact (climb_restores n _ inner.1 hinner).bind fun _ hbehind => .pure hbehind
    · exact .stuck

theorem climb_restores (n power : Nat) (left : Operand) {parts : List Part}
    (h : ∀ part ∈ parts, part.Restores) :
    (climb n power left parts).Restores fun r => ∀ part ∈ r.2, part.Restores := by
  match n, parts with
  | n, [] =>
    rw [climb]
    exact .pure (List.forall_mem_nil _)
  | 0, _ :: _ =>
    rw [climb]
    exact .stuck
  | n + 1, part :: rest =>
    obtain ⟨hpart, hrest⟩ := List.forall_mem_cons.mp h
    rw [climb]
    split
    · exact .stuck
    · split
      · split
        · exact .stuck
        · refine (operand_restores n hrest).bind fun right hright => ?_
          refine (climb_restores n _ right.1 hright).bind fun whole hwhole => ?_
          exact climb_restores n power _ hwhole
      · exact .pure h

end

theorem chain_restores {parts : List Part} (h : ∀ part ∈ parts, part.Restores) :
    (chain parts).Restores fun _ => True := by
  refine (operand_restores _ h).bind fun first hfirst => ?_
  exact (climb_restores _ 0 first.1 hfirst).bind fun whole _ => .ofExcept _

end Part

namespace Pair

theorem exprOf_restores (limit : Nat) (pair : Pair) {parts : List Part}
    (h : ∀ part ∈ parts, part.Restores) :
    (pair.exprOf limit parts).Restores fun _ => True := by
  have htelling := Part.telling_restores h
  unfold exprOf
  split
  · exact (Part.expect_restores _ htelling).bind fun inner hinner => hinner.1.expr
  · refine (Part.expect_restores _ htelling).bind fun target htarget => ?_
    refine (Part.expect_restores _ htarget.2).bind fun value _ => ?_
    exact (Build.Restores.nested limit _ _).bind fun _ _ => .pure trivial
  · refine (Part.expect_restores _ htelling).bind fun first hfirst => ?_
    refine hfirst.1.expr.bind fun cond _ => ?_
    split
    · exact .pure trivial
    · next hrest =>
      rw [hrest] at hfirst
      refine (Part.expect_restores _ (List.forall_mem_cons.mp hfirst.2).2).bind fun _ _ => ?_
      exact (Build.Restores.nested limit _ _).bind fun _ _ => .pure trivial
  · exact Part.chain_restores h
  · exact Part.number_restores _ _
  · exact Part.number_restores _ _
  · split
    · exact .fail _
    · exact .pure trivial
  · split
    · exact .fail _
    · exact .pure trivial
  · exact .pure trivial
  · refine (Part.expect_restores _ htelling).bind fun _ _ => ?_
    exact (Build.Restores.nested limit _ _).bind fun _ _ => .pure trivial
  · exact .fail _

theorem statementOf_restores (limit : Nat) (pair : Pair) {parts : List Part}
    (h : ∀ part ∈ parts, part.Restores) :
    (pair.statementOf limit parts).Restores fun _ => True := by
  have htelling := Part.telling_restores h
  have hexpect := Part.expect_restores pair.loc htelling
  have hbody : ∀ part : Part, (part.body limit).Restores fun _ => True := fun part =>
    .nested limit _ _
  unfold statementOf
  split
  · exact .pure trivial
  · exact (Build.Restores.nested limit _ _).bind fun _ _ => .pure trivial
  · refine hexpect.bind fun first _ => ?_
    refine (Part.typeName_restores first.1).bind fun _ _ => ?_
    exact (Part.idents_restores _).bind fun _ _ => .pure trivial
  · exact (Part.idents_restores _).bind fun _ _ => .pure trivial
  · exact (Build.Restores.each fun part hpart => (htelling part hpart).expr).bind fun _ _ =>
      .pure trivial
  · refine hexpect.bind fun first hfirst => hfirst.1.expr.bind fun _ _ => ?_
    refine (Part.expect_restores _ hfirst.2).bind fun second _ => ?_
    refine (hbody second.1).bind fun _ _ => ?_
    split
    · exact .pure trivial
    · exact (hbody _).bind fun _ _ => .pure trivial
  · refine hexpect.bind fun first hfirst => hfirst.1.expr.bind fun _ _ => ?_
    refine (Part.expect_restores _ hfirst.2).bind fun second _ => ?_
    exact (hbody second.1).bind fun _ _ => .pure trivial
  · refine hexpect.bind fun first hfirst => (hbody first.1).bind fun _ _ => ?_
    refine (Part.expect_restores _ hfirst.2).bind fun second hsecond => ?_
    exact hsecond.1.expr.bind fun _ _ => .pure trivial
  · refine hexpect.bind fun first hfirst => ?_
    exact hfirst.1.expr.bind fun _ _ => .pure trivial
  · exact .fail _

mutual

/-- **The counter is given back**, whatever the shape of a record. -/
theorem part_restores (limit : Nat) : (pair : Pair) → (pair.part limit).Restores
  | .node _ _ _ inner =>
    ⟨exprOf_restores limit _ (parts_restores limit inner),
      statementOf_restores limit _ (parts_restores limit inner)⟩

theorem parts_restores (limit : Nat) :
    (pairs : List Pair) → ∀ part ∈ parts limit pairs, part.Restores
  | [] => List.forall_mem_nil _
  | pair :: rest => List.forall_mem_cons.mpr ⟨part_restores limit pair, parts_restores limit rest⟩

end

end Pair

-- ---------------------------------------------------------------------------
-- Texts
-- ---------------------------------------------------------------------------

/-- **The limit on levels is exact.** Where the scan passes, the grammar accepts and all
numbers have values, a text is parsed if all paths of its tree are within the limit, and
fails one level past the limit if one of them is not. The result is that of the pass
over its record, in which the counter is given back by every part. -/
theorem Program.limit_exact {limit : Nat} {source : String} {body : List (Stmt Lexeme)}
    (hcheck : Nesting.check limit source.toList = none)
    (hbody : recognize source.toList = some body)
    (hnumbers : ∀ lexeme ∈ Stmt.lexemesAll body, lexeme.read?.isSome) :
    ((∃ program, parseWithin limit source = .ok program) ↔
      ∀ n ∈ Stmt.descentsAll body, n ≤ limit) ∧
    ((∃ loc, parseWithin limit source = .error ⟨.tooDeep (limit + 1) limit, loc⟩) ↔
      ∃ n ∈ Stmt.descentsAll body, limit < n) ∧
    buildWithin limit source = some (parseWithin limit source) ∧
    ∀ (pair : Pair) (depth depth' : Nat),
      (∀ r, (pair.part limit).expr depth = some (r, depth') → depth' = depth) ∧
      ∀ r, (pair.part limit).statement depth = some (r, depth') → depth' = depth := by
  have hparse : parseWithin limit source = Stmt.resolveAll limit 0 body := by
    unfold parseWithin
    rw [hcheck, hbody]
  have hexactly := Stmt.resolveAll_exactly body hnumbers (Nat.zero_le limit)
  have hwithin : Within limit 0 (Stmt.descentsAll body) ↔
      ∀ n ∈ Stmt.descentsAll body, n ≤ limit := by
    refine forall₂_congr fun n _ => ?_
    rw [Nat.zero_add]
  refine ⟨⟨?_, ?_⟩, ⟨?_, ?_⟩, Program.buildWithin_eq limit source, fun pair depth depth' => ?_⟩
  · rintro ⟨program, hok⟩
    by_contra hnot
    obtain ⟨loc, herror⟩ := hexactly.fails (mt hwithin.mp hnot)
    rw [hparse, herror] at hok
    cases hok
  · intro h
    rw [hparse]
    exact hexactly.succeeds (hwithin.mpr h)
  · rintro ⟨loc, herror⟩
    by_contra hnot
    push Not at hnot
    obtain ⟨program, hok⟩ := hexactly.succeeds (hwithin.mpr hnot)
    rw [hparse, hok] at herror
    cases herror
  · rintro ⟨n, hn, hlt⟩
    rw [hparse]
    exact hexactly.fails fun h => absurd (hwithin.mp h n hn) (by omega)
  · have hrestores := pair.part_restores limit
    exact ⟨fun r hrun => (hrestores.expr depth r depth' hrun).1,
      fun r hrun => (hrestores.statement depth r depth' hrun).1⟩

/-- A conditional whose body is a block with an assignment of a grouped value goes four
levels down, which the brackets alone do not. It is past a limit of three levels. -/
theorem Program.limit_exact_fourLevels :
    let source := "if (x) \x7b y = (1); \x7d"
    (∃ loc, parseWithin 3 source = .error ⟨.tooDeep 4 3, loc⟩) ∧
      ∃ program, parseWithin 4 source = .ok program := by
  intro source
  have hfacts : (recognize source.toList).map (fun body =>
      (Stmt.descentsAll body, (Stmt.lexemesAll body).all fun lexeme => lexeme.read?.isSome)) =
      some ([0, 4], true) := by
    decide +kernel
  obtain ⟨body, hbody, heq⟩ := Option.map_eq_some_iff.mp hfacts
  obtain ⟨hdescents, hall⟩ := Prod.mk.inj heq
  have hnumbers := List.all_eq_true.mp hall
  refine ⟨?_, ?_⟩
  · refine (Program.limit_exact (by decide +kernel) hbody hnumbers).2.1.mpr ?_
    rw [hdescents]
    exact ⟨4, by decide, by decide⟩
  · refine (Program.limit_exact (by decide +kernel) hbody hnumbers).1.mpr ?_
    rw [hdescents]
    decide

end Cairn
