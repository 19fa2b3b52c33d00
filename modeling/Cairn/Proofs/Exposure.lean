import Mathlib.Computability.Language
import Cairn.Proofs.Typing

/-!
# Cairn — names that are read before they are set

A declaration counts for all text behind it, but it sets its names only when it
is executed. Which names may be read too early can be computed from the program:
those that are read before they are set on some path through it, where a path is
free to choose at every condition.

## Main statements

* `Stmt.exact`       — a name is exposed if and only if some path exposes it, and
  sure to be set if and only if every path sets it.
* `Stmt.not_exposes` — without faults, a name that is not declared in a branch or
  in the body of a `while` is not exposed.
-/

namespace Cairn

-- ---------------------------------------------------------------------------
-- Names that are surely set, and names that may be read too early
-- ---------------------------------------------------------------------------

/-- The first of two things sets a name, or the second does. -/
abbrev setsSeq (first second : Bool) : Bool :=
  first || second

/-- The first of two things exposes a name, or the second does and the first
does not set it. -/
abbrev exposesSeq (firstExposes firstSets second : Bool) : Bool :=
  firstExposes || (!firstSets && second)

namespace Expr

/-- Every evaluation gives the name a value. -/
def sets (x : String) : Expr Literal → Bool
  | .literal _ _ => false
  | .name _ _ => false
  | .group _ inner => inner.sets x
  | .unary _ _ operand => operand.sets x
  | .binary _ _ left right => setsSeq (left.sets x) (right.sets x)
  | .assign _ target value => setsSeq (value.sets x) (target.name == x)
  | .ternary _ cond onTrue onFalse => setsSeq (cond.sets x) (onTrue.sets x && onFalse.sets x)

/-- Some evaluation reads the name without having given it a value. -/
def exposes (x : String) : Expr Literal → Bool
  | .literal _ _ => false
  | .name _ y => y == x
  | .group _ inner => inner.exposes x
  | .unary _ _ operand => operand.exposes x
  | .binary _ _ left right => exposesSeq (left.exposes x) (left.sets x) (right.exposes x)
  | .assign _ _ value => value.exposes x
  | .ternary _ cond onTrue onFalse =>
    exposesSeq (cond.exposes x) (cond.sets x) (onTrue.exposes x || onFalse.exposes x)

end Expr

/-- One of the names is the given one. -/
def namesAny (x : String) (names : List Ident) : Bool :=
  names.any (·.name == x)

/-- Evaluating the expressions gives the name a value. -/
def exprsSet (x : String) : List (Expr Literal) → Bool
  | [] => false
  | e :: rest => setsSeq (e.sets x) (exprsSet x rest)

/-- Evaluating the expressions may read the name too early. -/
def exprsExpose (x : String) : List (Expr Literal) → Bool
  | [] => false
  | e :: rest => exposesSeq (e.exposes x) (e.sets x) (exprsExpose x rest)

namespace Stmt

mutual

/-- Every run that gets through gives the name a value. -/
def sets (x : String) : Stmt Literal → Bool
  | .empty _ => false
  | .declaration _ _ names => namesAny x names
  | .expression _ e => e.sets x
  | .read _ names => namesAny x names
  | .write _ exprs => exprsSet x exprs
  | .block _ body => setsAll x body
  | .ifThen _ cond _ => cond.sets x
  | .ifElse _ cond onTrue onFalse => setsSeq (cond.sets x) (onTrue.sets x && onFalse.sets x)
  | .whileDo _ cond _ => cond.sets x
  | .doWhile _ body cond => setsSeq (body.sets x) (cond.sets x)

/-- Every run of the statements that gets through gives the name a value. -/
def setsAll (x : String) : List (Stmt Literal) → Bool
  | [] => false
  | s :: rest => setsSeq (s.sets x) (setsAll x rest)

end

mutual

/-- Some path reads the name without having given it a value. -/
def exposes (x : String) : Stmt Literal → Bool
  | .empty _ => false
  | .declaration _ _ _ => false
  | .expression _ e => e.exposes x
  | .read _ _ => false
  | .write _ exprs => exprsExpose x exprs
  | .block _ body => exposesAll x body
  | .ifThen _ cond onTrue => exposesSeq (cond.exposes x) (cond.sets x) (onTrue.exposes x)
  | .ifElse _ cond onTrue onFalse =>
    exposesSeq (cond.exposes x) (cond.sets x) (onTrue.exposes x || onFalse.exposes x)
  | .whileDo _ cond body => exposesSeq (cond.exposes x) (cond.sets x) (body.exposes x)
  | .doWhile _ body cond => exposesSeq (body.exposes x) (body.sets x) (cond.exposes x)

/-- Some path through the statements reads the name too early. -/
def exposesAll (x : String) : List (Stmt Literal) → Bool
  | [] => false
  | s :: rest => exposesSeq (s.exposes x) (s.sets x) (exposesAll x rest)

end

end Stmt

-- ---------------------------------------------------------------------------
-- Paths
-- ---------------------------------------------------------------------------

/-- What a path does with a name. -/
inductive Event where
  | read (name : String)
  | set (name : String)
deriving DecidableEq, Repr

namespace Event

/-- The path gives the name a value. -/
def pathSets (x : String) : List Event → Bool
  | [] => false
  | .read _ :: rest => pathSets x rest
  | .set y :: rest => y == x || pathSets x rest

/-- The path reads the name before it gives it a value. -/
def pathExposes (x : String) : List Event → Bool
  | [] => false
  | .read y :: rest => y == x || pathExposes x rest
  | .set y :: rest => y != x && pathExposes x rest

theorem pathSets_append (x : String) (p q : List Event) :
    pathSets x (p ++ q) = setsSeq (pathSets x p) (pathSets x q) := by
  induction p with
  | nil => rfl
  | cons event rest ih => cases event <;> simp [pathSets, ih, Bool.or_assoc]

theorem pathExposes_append (x : String) (p q : List Event) :
    pathExposes x (p ++ q) = exposesSeq (pathExposes x p) (pathSets x p) (pathExposes x q) := by
  induction p with
  | nil => rfl
  | cons event rest ih =>
    cases event with
    | read y => simp [pathExposes, pathSets, ih, Bool.or_assoc]
    | set y => cases hy : y == x <;> simp [pathExposes, pathSets, ih, hy, bne]

theorem exists_pathExposes_of_flatten {x : String} {ps : List (List Event)}
    (h : pathExposes x ps.flatten) : ∃ p ∈ ps, pathExposes x p := by
  induction ps with
  | nil => cases h
  | cons p rest ih =>
    rw [List.flatten_cons, pathExposes_append, Bool.or_eq_true] at h
    rcases h with h | h
    · exact ⟨p, List.mem_cons_self, h⟩
    · obtain ⟨q, hq, hexp⟩ := ih (Bool.and_eq_true_iff.mp h).2
      exact ⟨q, List.mem_cons_of_mem _ hq, hexp⟩

end Event

open Event Computability

/-- Two answers about a name are those of a set of paths: every path sets the
name, and some path exposes it. -/
structure Exact (x : String) (sets exposes : Bool) (paths : Language Event) : Prop where
  nonempty : ∃ p, p ∈ paths
  sets_iff : sets ↔ ∀ p ∈ paths, pathSets x p
  exposes_iff : exposes ↔ ∃ p ∈ paths, pathExposes x p

namespace Exact

variable {x : String} {s₁ s₂ e₁ e₂ : Bool} {a b : Language Event}

theorem single (p : List Event) : Exact x (pathSets x p) (pathExposes x p) {p} where
  nonempty := ⟨p, rfl⟩
  sets_iff := ⟨fun h _ hq => hq ▸ h, fun h => h p rfl⟩
  exposes_iff := ⟨fun h => ⟨p, rfl, h⟩, fun ⟨_, hq, h⟩ => hq ▸ h⟩

/-- A name that need not be set is missed by some path. -/
theorem exists_unset (ha : Exact x s₁ e₁ a) (hs : s₁ = false) : ∃ p ∈ a, pathSets x p = false := by
  have hnot : ¬ ∀ p ∈ a, pathSets x p := fun h => by simp [ha.sets_iff.mpr h] at hs
  simpa using hnot

theorem mul (ha : Exact x s₁ e₁ a) (hb : Exact x s₂ e₂ b) :
    Exact x (setsSeq s₁ s₂) (exposesSeq e₁ s₁ e₂) (a * b) := by
  obtain ⟨p₀, hp₀⟩ := ha.nonempty
  obtain ⟨q₀, hq₀⟩ := hb.nonempty
  refine ⟨⟨p₀ ++ q₀, Language.append_mem_mul hp₀ hq₀⟩, ⟨fun h => ?_, fun h => ?_⟩,
    ⟨fun h => ?_, fun h => ?_⟩⟩
  · rintro _ ⟨p, hp, q, hq, rfl⟩
    rw [pathSets_append]
    rcases Bool.or_eq_true_iff.mp h with h | h
    · simp [ha.sets_iff.mp h p hp]
    · simp [hb.sets_iff.mp h q hq]
  · -- two paths that both miss the name would make one that does
    cases hs₁ : s₁ with
    | true => rfl
    | false =>
      obtain ⟨p, hp, hmiss⟩ := ha.exists_unset hs₁
      refine hb.sets_iff.mpr fun q hq => ?_
      have := h _ (Language.append_mem_mul hp hq)
      simpa [pathSets_append, hmiss] using this
  · rcases Bool.or_eq_true_iff.mp h with h | h
    · obtain ⟨p, hp, hexp⟩ := ha.exposes_iff.mp h
      exact ⟨p ++ q₀, Language.append_mem_mul hp hq₀, by simp [pathExposes_append, hexp]⟩
    · obtain ⟨hs, he⟩ := Bool.and_eq_true_iff.mp h
      obtain ⟨p, hp, hmiss⟩ := ha.exists_unset (by simpa using hs)
      obtain ⟨q, hq, hexp⟩ := hb.exposes_iff.mp he
      exact ⟨p ++ q, Language.append_mem_mul hp hq, by simp [pathExposes_append, hmiss, hexp]⟩
  · obtain ⟨_, ⟨p, hp, q, hq, rfl⟩, hexp⟩ := h
    rw [pathExposes_append, Bool.or_eq_true] at hexp
    rcases hexp with hexp | hexp
    · simp [ha.exposes_iff.mpr ⟨p, hp, hexp⟩]
    · obtain ⟨hmiss, hexp⟩ := Bool.and_eq_true_iff.mp hexp
      have hs : s₁ = false :=
        Bool.eq_false_iff.mpr fun hs => by simp [ha.sets_iff.mp hs p hp] at hmiss
      simp [hs, hb.exposes_iff.mpr ⟨q, hq, hexp⟩]

theorem add (ha : Exact x s₁ e₁ a) (hb : Exact x s₂ e₂ b) :
    Exact x (s₁ && s₂) (e₁ || e₂) (a + b) where
  nonempty := ha.nonempty.imp fun _ => .inl
  sets_iff := by
    simp only [Language.mem_add, or_imp, forall_and, Bool.and_eq_true, ha.sets_iff, hb.sets_iff]
  exposes_iff := by
    simp only [Language.mem_add, or_and_right, exists_or, Bool.or_eq_true, ha.exposes_iff,
      hb.exposes_iff]

theorem kstar (ha : Exact x s₁ e₁ a) : Exact x false e₁ a∗ where
  nonempty := ⟨[], Language.nil_mem_kstar a⟩
  sets_iff := ⟨nofun, fun h => h [] (Language.nil_mem_kstar a)⟩
  exposes_iff := by
    rw [ha.exposes_iff]
    constructor
    · rintro ⟨p, hp, hexp⟩
      exact ⟨p, (le_kstar : a ≤ a∗) hp, hexp⟩
    · rintro ⟨_, hp, hexp⟩
      obtain ⟨ps, rfl, hps⟩ := Language.mem_kstar.mp hp
      obtain ⟨p, hmem, hexp⟩ := exists_pathExposes_of_flatten hexp
      exact ⟨p, hps p hmem, hexp⟩

end Exact

/-- The paths through an expression. -/
def Expr.paths : Expr Literal → Language Event
  | .literal _ _ => 1
  | .name _ x => {[.read x]}
  | .group _ inner => inner.paths
  | .unary _ _ operand => operand.paths
  | .binary _ _ left right => left.paths * right.paths
  | .assign _ target value => value.paths * {[.set target.name]}
  | .ternary _ cond onTrue onFalse => cond.paths * (onTrue.paths + onFalse.paths)

/-- The paths through expressions one after the other. -/
def exprsPaths : List (Expr Literal) → Language Event
  | [] => 1
  | e :: rest => e.paths * exprsPaths rest

namespace Stmt

mutual

/-- The paths through a statement. -/
def paths : Stmt Literal → Language Event
  | .empty _ => 1
  | .declaration _ _ names => {names.map fun y => .set y.name}
  | .expression _ e => e.paths
  | .read _ names => {names.map fun y => .set y.name}
  | .write _ exprs => exprsPaths exprs
  | .block _ body => pathsAll body
  | .ifThen _ cond onTrue => cond.paths * (1 + onTrue.paths)
  | .ifElse _ cond onTrue onFalse => cond.paths * (onTrue.paths + onFalse.paths)
  | .whileDo _ cond body => cond.paths * (body.paths * cond.paths)∗
  | .doWhile _ body cond => body.paths * cond.paths * (body.paths * cond.paths)∗

/-- The paths through statements one after the other. -/
def pathsAll : List (Stmt Literal) → Language Event
  | [] => 1
  | s :: rest => s.paths * pathsAll rest

end

end Stmt

theorem Exact.one (x : String) : Exact x false false 1 :=
  Exact.single []

theorem Exact.names (x : String) (names : List Ident) :
    Exact x (namesAny x names) false {names.map fun y => .set y.name} := by
  have h : pathSets x (names.map fun y => .set y.name) = namesAny x names ∧
      pathExposes x (names.map fun y => .set y.name) = false := by
    induction names with
    | nil => exact ⟨rfl, rfl⟩
    | cons y rest ih => simp [pathSets, pathExposes, namesAny, ih.1, ih.2]
  rw [← h.1, ← h.2]
  exact single _

theorem Expr.exact (x : String) (e : Expr Literal) : Exact x (e.sets x) (e.exposes x) e.paths := by
  induction e with
  | literal loc value => exact .one x
  | name loc y =>
    have h := Exact.single (x := x) [.read y]
    simp only [pathSets, pathExposes, Bool.or_false] at h
    exact h
  | group loc inner ih => exact ih
  | unary loc op operand ih => exact ih
  | binary loc op left right ihl ihr => exact ihl.mul ihr
  | assign loc target value ih =>
    have h := ih.mul (.single [.set target.name])
    simp only [pathSets, pathExposes, exposesSeq, Bool.or_false, Bool.and_false] at h
    exact h
  | ternary loc cond onTrue onFalse ihc iht ihf => exact ihc.mul (iht.add ihf)

theorem exprs_exact (x : String) (exprs : List (Expr Literal)) :
    Exact x (exprsSet x exprs) (exprsExpose x exprs) (exprsPaths exprs) := by
  induction exprs with
  | nil => exact .one x
  | cons e rest ih => exact (e.exact x).mul ih

/-- **The computed answers are those of the paths.** -/
theorem Stmt.exact (x : String) (s : Stmt Literal) : Exact x (s.sets x) (s.exposes x) s.paths := by
  induction s using Stmt.induction with
  | empty loc => exact .one x
  | declaration loc ty names => exact .names x names
  | expression loc e => exact e.exact x
  | read loc names => exact .names x names
  | write loc exprs => exact exprs_exact x exprs
  | blockNil loc => exact .one x
  | blockCons loc s rest ihs ihrest => exact ihs.mul ihrest
  | ifThen loc cond onTrue ih =>
    have h := (cond.exact x).mul ((Exact.one x).add ih)
    simp only [setsSeq, Bool.false_and, Bool.or_false, Bool.false_or] at h
    exact h
  | ifElse loc cond onTrue onFalse iht ihf => exact (cond.exact x).mul (iht.add ihf)
  | whileDo loc cond body ih =>
    have h := (cond.exact x).mul (ih.mul (cond.exact x)).kstar
    -- a second round adds nothing: what the condition exposes was exposed before the first
    have hround : exposesSeq (cond.exposes x) (cond.sets x)
        (exposesSeq (body.exposes x) (body.sets x) (cond.exposes x)) =
        (Stmt.whileDo loc cond body).exposes x := by
      rw [exposes]
      cases cond.exposes x <;> simp [exposesSeq]
    rw [hround, setsSeq, Bool.or_false] at h
    exact h
  | doWhile loc body cond ih =>
    have h := (ih.mul (cond.exact x)).mul (ih.mul (cond.exact x)).kstar
    have hround : ∀ e s : Bool, exposesSeq e s e = e := by decide
    rw [hround, setsSeq, Bool.or_false] at h
    exact h

-- ---------------------------------------------------------------------------
-- Declarations
-- ---------------------------------------------------------------------------

namespace Stmt

mutual

/-- The name is declared somewhere in the statement. -/
def declares (x : String) : Stmt Literal → Bool
  | .declaration _ _ names => namesAny x names
  | .block _ body => declaresAny x body
  | .ifThen _ _ onTrue => onTrue.declares x
  | .ifElse _ _ onTrue onFalse => onTrue.declares x || onFalse.declares x
  | .whileDo _ _ body => body.declares x
  | .doWhile _ body _ => body.declares x
  | _ => false

/-- The name is declared somewhere in the statements. -/
def declaresAny (x : String) : List (Stmt Literal) → Bool
  | [] => false
  | s :: rest => s.declares x || declaresAny x rest

end

mutual

/-- The name is declared where a run may pass by: in a branch of an `if` or in the
body of a `while`. The body of a `do` is run in any case. -/
def declaresPassable (x : String) : Stmt Literal → Bool
  | .block _ body => declaresPassableAny x body
  | .ifThen _ _ onTrue => onTrue.declares x
  | .ifElse _ _ onTrue onFalse => onTrue.declares x || onFalse.declares x
  | .whileDo _ _ body => body.declares x
  | .doWhile _ body _ => body.declaresPassable x
  | _ => false

/-- The name is declared where a run of the statements may pass by. -/
def declaresPassableAny (x : String) : List (Stmt Literal) → Bool
  | [] => false
  | s :: rest => s.declaresPassable x || declaresPassableAny x rest

end

theorem declares_of_declaresPassable {x : String} {s : Stmt Literal}
    (h : s.declaresPassable x) : s.declares x := by
  induction s using Stmt.induction with
  | blockCons loc s rest ihs ihrest =>
    exact Bool.or_eq_true_iff.mpr ((Bool.or_eq_true_iff.mp h).imp ihs ihrest)
  | ifThen loc cond onTrue ih => exact h
  | ifElse loc cond onTrue onFalse iht ihf => exact h
  | whileDo loc cond body ih => exact h
  | doWhile loc body cond ih => exact ih h
  | _ => cases h

end Stmt

theorem Symbols.find?_with {x y : String} (hne : y ≠ x) (Γ : Symbols) (ty : Ty) :
    (Γ.with y ty).find? x = Γ.find? x := by
  cases hy : Γ.find? y with
  | some known => rw [with_of_known hy]
  | none => rw [with_of_new hy, Bindings.find?_insert, if_neg hne]

theorem find?_declareAll {x : String} (ty : Ty) {Γ : Symbols} {names : List Ident}
    (hx : namesAny x names = false) : (declareAll ty Γ names).find? x = Γ.find? x := by
  induction names generalizing Γ with
  | nil => rfl
  | cons y rest ih =>
    obtain ⟨hy, hrest⟩ := Bool.or_eq_false_iff.mp hx
    exact (ih hrest).trans (Symbols.find?_with (beq_eq_false_iff_ne.mp hy) Γ ty)

/-- A statement leaves the entry of a name alone that it does not declare. -/
theorem Stmt.find?_symbolsAfter {x : String} {s : Stmt Literal} (hx : s.declares x = false)
    (Γ : Symbols) : (s.symbolsAfter Γ).find? x = Γ.find? x := by
  induction s using Stmt.induction generalizing Γ with
  | declaration loc ty names => exact find?_declareAll ty hx
  | blockCons loc s rest ihs ihrest =>
    obtain ⟨hs, hrest⟩ := Bool.or_eq_false_iff.mp hx
    exact (ihrest hrest _).trans (ihs hs Γ)
  | ifThen loc cond onTrue ih => exact ih hx Γ
  | ifElse loc cond onTrue onFalse iht ihf =>
    obtain ⟨ht, hf⟩ := Bool.or_eq_false_iff.mp hx
    exact (ihf hf _).trans (iht ht Γ)
  | whileDo loc cond body ih => exact ih hx Γ
  | doWhile loc body cond ih => exact ih hx Γ
  | _ => rfl

/-- An expression without faults reads only names that are in the table. -/
theorem Expr.not_exposes {x : String} {Γ : Symbols} {e : Expr Literal} (hx : Γ.find? x = none)
    (h : e.faults Γ = []) : e.exposes x = false := by
  induction e with
  | literal loc value => rfl
  | name loc y =>
    refine beq_eq_false_iff_ne.mpr fun hy => ?_
    simp [faults, judgeName, hy, hx] at h
  | group loc inner ih => exact ih h
  | unary loc op operand ih => exact ih (List.append_eq_nil_iff.mp h).1
  | binary loc op left right ihl ihr =>
    simp only [faults, List.append_eq_nil_iff] at h
    simp [exposes, exposesSeq, ihl h.1.1, ihr h.1.2]
  | assign loc target value ih => exact ih (List.append_eq_nil_iff.mp h).1
  | ternary loc cond onTrue onFalse ihc iht ihf =>
    simp only [faults, List.append_eq_nil_iff] at h
    simp [exposes, exposesSeq, ihc h.1.1.1.1, iht h.1.1.2, ihf h.1.2]

theorem exprsExpose_eq_false {x : String} {Γ : Symbols} {exprs : List (Expr Literal)}
    (hx : Γ.find? x = none) (h : exprs.flatMap (Expr.faults Γ) = []) :
    exprsExpose x exprs = false := by
  induction exprs with
  | nil => rfl
  | cons e rest ih =>
    simp only [List.flatMap_cons, List.append_eq_nil_iff] at h
    simp [exprsExpose, exposesSeq, Expr.not_exposes hx h.1, ih h.2]

/-- **What is declared for sure is not exposed**: a statement without faults does
not expose a name that is new to it and declared in no place that a run may pass
by, and it sets the name or leaves it undeclared. -/
theorem Stmt.not_exposes {x : String} {s : Stmt Literal} (hs : s.declaresPassable x = false)
    {Γ : Symbols} (hx : Γ.find? x = none) (h : s.faultsFrom Γ = []) :
    s.exposes x = false ∧ (s.sets x ∨ (s.symbolsAfter Γ).find? x = none) := by
  -- where a branch or a body declares the name at all, a run may pass by
  have hinner : ∀ {t : Stmt Literal}, t.declares x = false → t.declaresPassable x = false :=
    fun ht => Bool.eq_false_iff.mpr fun hp => by simp [declares_of_declaresPassable hp] at ht
  induction s using Stmt.induction generalizing Γ with
  | empty loc => exact ⟨rfl, .inr hx⟩
  | declaration loc ty names =>
    refine ⟨rfl, ?_⟩
    cases hnames : namesAny x names with
    | true => exact .inl hnames
    | false => exact .inr ((find?_declareAll ty hnames).trans hx)
  | expression loc e => exact ⟨Expr.not_exposes hx h, .inr hx⟩
  | read loc names => exact ⟨rfl, .inr hx⟩
  | write loc exprs => exact ⟨exprsExpose_eq_false hx h, .inr hx⟩
  | blockNil loc => exact ⟨rfl, .inr hx⟩
  | blockCons loc s rest ihs ihrest =>
    obtain ⟨hps, hprest⟩ := Bool.or_eq_false_iff.mp hs
    obtain ⟨hfs, hfrest⟩ := List.append_eq_nil_iff.mp h
    obtain ⟨hexp, hset⟩ := ihs hps hx hfs
    rcases hset with hset | hnone
    · exact ⟨by simp [exposes, exposesAll, exposesSeq, hexp, hset],
        .inl (by simp [sets, setsAll, hset])⟩
    · obtain ⟨hexpr, hsetr⟩ := ihrest hprest hnone hfrest
      refine ⟨?_, hsetr.imp_left fun hr => Bool.or_eq_true_iff.mpr (.inr hr)⟩
      change exposesAll x rest = false at hexpr
      simp [exposes, exposesAll, exposesSeq, hexp, hexpr]
  | ifThen loc cond onTrue ih =>
    simp only [faultsFrom, Expr.conditionFaults, List.append_eq_nil_iff] at h
    obtain ⟨hexp, -⟩ := ih (hinner hs) hx h.2
    refine ⟨by simp [exposes, exposesSeq, Expr.not_exposes hx h.1.1, hexp], .inr ?_⟩
    exact (find?_symbolsAfter hs Γ).trans hx
  | ifElse loc cond onTrue onFalse iht ihf =>
    obtain ⟨hst, hsf⟩ := Bool.or_eq_false_iff.mp hs
    simp only [faultsFrom, Expr.conditionFaults, List.append_eq_nil_iff] at h
    have hxt := (find?_symbolsAfter hst Γ).trans hx
    obtain ⟨hexpt, -⟩ := iht (hinner hst) hx h.1.2
    obtain ⟨hexpf, -⟩ := ihf (hinner hsf) hxt h.2
    refine ⟨by simp [exposes, exposesSeq, Expr.not_exposes hx h.1.1.1, hexpt, hexpf], .inr ?_⟩
    exact (find?_symbolsAfter hsf _).trans hxt
  | whileDo loc cond body ih =>
    simp only [faultsFrom, Expr.conditionFaults, List.append_eq_nil_iff] at h
    obtain ⟨hexp, -⟩ := ih (hinner hs) hx h.2
    refine ⟨by simp [exposes, exposesSeq, Expr.not_exposes hx h.1.1, hexp], .inr ?_⟩
    exact (find?_symbolsAfter hs Γ).trans hx
  | doWhile loc body cond ih =>
    simp only [faultsFrom, Expr.conditionFaults, List.append_eq_nil_iff] at h
    obtain ⟨hexp, hset⟩ := ih hs hx h.1
    rcases hset with hset | hnone
    · exact ⟨by simp [exposes, exposesSeq, hexp, hset], .inl (by simp [sets, hset])⟩
    · exact ⟨by simp [exposes, exposesSeq, hexp, Expr.not_exposes hnone h.2.1], .inr hnone⟩

end Cairn
