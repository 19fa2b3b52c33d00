import Cairn.Proofs.Names
import Cairn.Proofs.Pairs
import Mathlib.Data.List.Forall2
import Mathlib.Data.List.TakeWhile

/-!
# Cairn — trees from records

A computation *runs* to a result if it gives that result and leaves the counter
where it was. Resolving a tree passes the depth down as an argument where building
one keeps it in a counter, and this module says once for each way to put computations
together that the two come to the same.

For chains of operators the two differ in more than that. The grammar puts each
operator at its place as it comes along, from the left; the pass over a record climbs,
taking up all that binds more tightly before it goes on. Both give one tree: what is
taken up on the way is what would have been put into the right operand.

## Main definitions

* `Build.Runs` — the result of a computation that keeps the counter.
* `Pair.Builds` — an expression is what is built from a pair.

## Main statements

* `Expr.ofChain_joined` — operators that bind more tightly go to the right operand.
* `Part.climb_runs`     — climbing, from any operand on.
* `Part.chain_runs`     — the tree of a whole chain.
-/

namespace Cairn

-- ---------------------------------------------------------------------------
-- Computations that keep the counter
-- ---------------------------------------------------------------------------

namespace Build

variable {α β : Type} {limit depth : Nat}

/-- With the counter at `depth` the computation gives `r`, and leaves the counter
there. -/
def Runs (x : Build α) (r : Except ParseError α) (depth : Nat) : Prop :=
  x depth = some (r, depth)

namespace Runs

theorem ofExcept (r : Except ParseError α) (depth : Nat) : (Build.ofExcept r).Runs r depth := rfl

theorem pure (a : α) (depth : Nat) : (Pure.pure a : Build α).Runs (.ok a) depth := rfl

theorem bind {x : Build α} {r : Except ParseError α} {f : α → Build β}
    {g : α → Except ParseError β} (hx : x.Runs r depth)
    (hf : ∀ a, r = .ok a → (f a).Runs (g a) depth) : (x >>= f).Runs (r >>= g) depth := by
  have hx : x depth = some (r, depth) := hx
  show Build.bind x f depth = some (r >>= g, depth)
  unfold Build.bind
  rw [hx]
  cases r with
  | error error => rfl
  | ok a => exact hf a rfl

theorem andThen {x : Build α} {a : α} {f : α → Build β} {r : Except ParseError β}
    (hx : x.Runs (.ok a) depth) (hf : (f a).Runs r depth) : (x >>= f).Runs r depth := by
  have hx : x depth = some (.ok a, depth) := hx
  show Build.bind x f depth = some (r, depth)
  unfold Build.bind
  rw [hx]
  exact hf

theorem attempt {x : Build α} {r : Except ParseError α} (h : x.Runs r depth) :
    x.attempt.Runs (.ok r) depth := by
  have h : x depth = some (r, depth) := h
  show (x depth).map _ = _
  rw [h]
  rfl

theorem nested {x : Build α} {body : Nat → Except ParseError α} (loc : Location)
    (h : x.Runs (body (depth + 1)) (depth + 1)) :
    (Build.nested limit loc x).Runs (Cairn.nested limit depth loc body) depth := by
  have h : x (depth + 1) = some (body (depth + 1), depth + 1) := h
  show Build.nested limit loc x depth = some (Cairn.nested limit depth loc body, depth)
  unfold Build.nested Cairn.nested
  rw [h]
  split <;> rfl

end Runs

end Build

-- ---------------------------------------------------------------------------
-- Operators in their places
-- ---------------------------------------------------------------------------

namespace Expr

variable {L : Type}

/-- The operator with its operands, from the start of the left one to the end of the
right one. -/
def joined (op : BinaryOp) (left right : Expr L) : Expr L :=
  .binary (left.loc.through right.loc) op left right

/-- The operator takes the whole expression for its left operand. -/
def IsLeftOf (op : BinaryOp) : Expr L → Prop
  | .binary _ op' _ _ => op.precedence ≤ op'.precedence
  | _ => True

theorem attach_of_isLeftOf {op : BinaryOp} {e : Expr L} (h : e.IsLeftOf op) (right : Expr L) :
    attach op right e = joined op e right := by
  cases e with
  | binary loc op' l r =>
    have h : op.precedence ≤ op'.precedence := h
    rw [attach, if_neg (Nat.not_lt.mpr h)]
    rfl
  | _ => rfl

theorem isLeftOf_ofOperand {ops : List (UnaryOp × Location)} {inner : Expr L}
    (h : ∀ op, inner.IsLeftOf op) (op : BinaryOp) : (ofOperand ops inner).IsLeftOf op := by
  cases ops with
  | nil => exact h op
  | cons sign ops => trivial

theorem ofChain_cons (first : Expr L) (next : BinaryOp × Expr L) (more : List (BinaryOp × Expr L)) :
    ofChain first (next :: more) = ofChain (attach next.1 next.2 first) more := rfl

theorem ofChain_ofChain (first : Expr L) (more last : List (BinaryOp × Expr L)) :
    ofChain (ofChain first more) last = ofChain first (more ++ last) :=
  List.foldl_append.symm

/-- Operators that bind more tightly go to the right operand. -/
theorem ofChain_joined {op : BinaryOp} {more : List (BinaryOp × Expr L)}
    (h : ∀ next ∈ more, op.precedence < next.1.precedence) (left right : Expr L) :
    ofChain (joined op left right) more = joined op left (ofChain right more) := by
  induction more generalizing right with
  | nil => rfl
  | cons next more ih =>
    obtain ⟨hnext, hmore⟩ := List.forall_mem_cons.mp h
    have hattach : attach next.1 next.2 (joined op left right) =
        joined op left (attach next.1 next.2 right) := by
      rw [joined, attach, if_pos hnext]
      rfl
    rw [ofChain_cons, hattach, ih hmore]
    rfl

end Expr

-- ---------------------------------------------------------------------------
-- Operands as they are resolved
-- ---------------------------------------------------------------------------

section

variable (limit depth : Nat)

/-- Resolving an expression leaves it where it is. -/
theorem Expr.resolve_loc (e : Expr Lexeme) :
    Gives (e.resolve limit depth) fun e' => e'.loc = e.loc := by
  have hany : ∀ {α : Type} (x : Except ParseError α), Gives x fun _ => True := fun _ _ _ => trivial
  cases e with
  | literal loc value =>
    unfold Expr.resolve
    split
    · exact .ok rfl
    · rintro _ ⟨⟩
  | name loc x => exact .ok rfl
  | group loc inner => exact (hany _).bind fun _ _ => .ok rfl
  | unary loc op operand => exact (hany _).bind fun _ _ => .ok rfl
  | binary loc op left right => exact (hany _).bind fun _ _ => (hany _).bind fun _ _ => .ok rfl
  | assign loc target value => exact (hany _).bind fun _ _ => .ok rfl
  | ternary loc cond onTrue onFalse =>
    exact (hany _).bind fun _ _ => (hany _).bind fun _ _ => .ok rfl

theorem Operand.unary_resolve (loc : Location) (op : UnaryOp) (e : Expr Lexeme) :
    Operand.unary loc op (e.resolve limit depth) =
      (Expr.unary (loc.through e.loc) op e).resolve limit depth := by
  have hloc := e.resolve_loc limit depth
  rw [Operand.unary, Expr.resolve]
  cases he : e.resolve limit depth with
  | error error => rfl
  | ok e' =>
    show Except.ok (Expr.unary (loc.through e'.loc) op e') = _
    rw [hloc e' he]
    rfl

theorem Operand.binary_resolve (op : BinaryOp) (left right : Expr Lexeme) :
    Operand.binary op (left.resolve limit depth) (right.resolve limit depth) =
      (Expr.joined op left right).resolve limit depth := by
  have hleft := left.resolve_loc limit depth
  have hright := right.resolve_loc limit depth
  rw [Operand.binary, Expr.joined, Expr.resolve]
  cases hl : left.resolve limit depth with
  | error error => rfl
  | ok l =>
    cases hr : right.resolve limit depth with
    | error error => rfl
    | ok r =>
      show Except.ok (Expr.binary (l.loc.through r.loc) op l r) = _
      rw [hleft l hl, hright r hr]
      rfl

end

-- ---------------------------------------------------------------------------
-- Pairs in a chain
-- ---------------------------------------------------------------------------

/-- The expression is what is built from the pair, under every limit and at every
depth. -/
def Pair.Builds (pair : Pair) (e : Expr Lexeme) : Prop :=
  ∀ limit depth, (pair.part limit).expr.Runs (e.resolve limit depth) depth

/-- The pair is a sign, and where it stands is known. -/
def Pair.IsSign (pair : Pair) (sign : UnaryOp × Location) : Prop :=
  pair.label = .rule (.unary sign.1) ∧ pair.loc = sign.2

/-- The pairs of an operand: its signs, and what they apply to. -/
structure Pairs.IsOperand (pairs : List Pair) (e : Expr Lexeme) : Prop where
  parts : ∃ signs primary ops inner, pairs = signs ++ [primary] ∧
    List.Forall₂ Pair.IsSign signs ops ∧
    Affix.of? primary.label = none ∧ primary.Builds inner ∧ e = Expr.ofOperand ops inner
  /-- Every operator takes the whole of it. -/
  isLeftOf : ∀ op, e.IsLeftOf op

/-- The pairs of operators with their right operands, one behind the other. -/
inductive Pairs.AreLinks : List Pair → List (BinaryOp × Expr Lexeme) → Prop
  | nil : AreLinks [] []
  | cons {op : BinaryOp} {right : Expr Lexeme} {operator : Pair} {operand rest : List Pair}
      {more : List (BinaryOp × Expr Lexeme)} : operator.label = .rule (.operator op) →
      IsOperand operand right → AreLinks rest more →
      AreLinks (operator :: (operand ++ rest)) ((op, right) :: more)

/-- The pairs are over, or go on with an operator that binds no tighter than `power`. -/
def Pairs.Loose (power : Nat) (pairs : List Pair) : Prop :=
  ∀ pair ∈ pairs.head?, ∃ op, pair.label = .rule (.operator op) ∧ (Affix.between op).power ≤ power

/-- No binary operator binds as tightly as a sign. -/
theorem Affix.power_between_lt (op : BinaryOp) (sign : UnaryOp) :
    (Affix.between op).power < (Affix.front sign).power := by
  cases op <;> cases sign <;> decide

theorem Pairs.AreLinks.loose {pairs : List Pair} {more : List (BinaryOp × Expr Lexeme)}
    (h : AreLinks pairs more) (sign : UnaryOp) :
    Loose ((Affix.front sign).power - 1) pairs := by
  intro pair hpair
  cases h with
  | nil => cases hpair
  | cons hlabel _ _ =>
    obtain rfl := Option.some.inj hpair
    exact ⟨_, hlabel, Nat.le_sub_one_of_lt (Affix.power_between_lt _ sign)⟩

namespace Pair

theorem parts_eq (limit : Nat) (pairs : List Pair) :
    parts limit pairs = pairs.map (part limit) := by
  induction pairs with
  | nil => rfl
  | cons pair rest ih => rw [parts, ih, List.map_cons]

theorem parts_append (limit : Nat) (before after : List Pair) :
    parts limit (before ++ after) = parts limit before ++ parts limit after := by
  rw [parts_eq, parts_eq, parts_eq, List.map_append]

theorem length_parts (limit : Nat) (pairs : List Pair) :
    (parts limit pairs).length = pairs.length := by
  rw [parts_eq, List.length_map]

theorem part_pair (limit : Nat) (pair : Pair) : (pair.part limit).pair = pair := by
  cases pair
  rfl

end Pair

-- ---------------------------------------------------------------------------
-- Climbing
-- ---------------------------------------------------------------------------

namespace Part

open Pairs

variable (limit depth : Nat)

theorem climb_of_loose {n power : Nat} {rest : List Pair} (hloose : Loose power rest)
    (hn : rest.length ≤ n) (left : Operand) :
    (climb n power left (Pair.parts limit rest)).Runs
      (.ok (left, Pair.parts limit rest)) depth := by
  cases rest with
  | nil =>
    rw [Pair.parts, climb]
    exact .pure _ depth
  | cons pair rest =>
    obtain ⟨op, hlabel, hpower⟩ := hloose pair rfl
    have hpos : 1 ≤ n := Nat.le_trans (Nat.le_add_left 1 _) hn
    obtain ⟨m, rfl⟩ := Nat.exists_eq_add_of_le' hpos
    rw [Pair.parts, climb, Pair.part_pair, hlabel]
    show Build.Runs (if power < (Affix.between op).power then _ else _) _ _
    rw [if_neg (Nat.not_lt.mpr hpower)]
    exact .pure _ depth

/-- An operand with its signs. What a sign applies to ends where the chain goes on. -/
theorem operand_runs {pairs rest : List Pair} {e : Expr Lexeme} (h : IsOperand pairs e)
    (hloose : ∀ sign, Loose ((Affix.front sign).power - 1) rest) {n : Nat}
    (hn : pairs.length + rest.length ≤ n) :
    (operand n (Pair.parts limit (pairs ++ rest))).Runs
      (.ok (e.resolve limit depth, Pair.parts limit rest)) depth := by
  obtain ⟨signs, primary, ops, inner, rfl, hsigns, hprimary, hbuilds, rfl⟩ := h.parts
  clear h
  induction hsigns generalizing n with
  | nil =>
    obtain ⟨m, rfl⟩ := Nat.exists_eq_add_of_le' (show 1 ≤ n by simp at hn; omega)
    show (operand (m + 1) (primary.part limit :: Pair.parts limit rest)).Runs _ _
    rw [operand, Pair.part_pair, hprimary]
    exact (hbuilds limit depth).attempt.andThen (.pure _ depth)
  | @cons sign op signs ops hsign _ ih =>
    obtain ⟨m, rfl⟩ := Nat.exists_eq_add_of_le' (show 1 ≤ n by simp at hn; omega)
    have hm : (signs ++ [primary]).length + rest.length ≤ m := by simp at hn ⊢; omega
    show (operand (m + 1)
      (sign.part limit :: Pair.parts limit (signs ++ [primary] ++ rest))).Runs _ _
    rw [operand, Pair.part_pair, hsign.1]
    refine (ih hm).andThen ?_
    refine (climb_of_loose limit depth (hloose op.1) (by omega) _).andThen ?_
    rw [Operand.unary_resolve, hsign.2]
    exact .pure _ depth

/-- The operator is taken up while climbing above `power`. -/
def tight (power : Nat) (next : BinaryOp × Expr Lexeme) : Bool :=
  power < (Affix.between next.1).power

theorem tight_iff {power : Nat} {next : BinaryOp × Expr Lexeme} :
    tight power next ↔ power < (Affix.between next.1).power :=
  decide_eq_true_iff

/-- What is taken up above a higher power is taken up above a lower one. -/
theorem tight_of_mem_takeWhile {power power' : Nat} (hle : power ≤ power')
    (more : List (BinaryOp × Expr Lexeme)) :
    ∀ next ∈ more.takeWhile (tight power'), tight power next := by
  intro next hnext
  exact tight_iff.mpr (Nat.lt_of_le_of_lt hle (tight_iff.mp (List.mem_takeWhile_imp hnext)))

theorem takeWhile_tight {power power' : Nat} (hle : power ≤ power')
    (more : List (BinaryOp × Expr Lexeme)) :
    more.takeWhile (tight power) =
      more.takeWhile (tight power') ++ (more.dropWhile (tight power')).takeWhile (tight power) := by
  rw [← List.takeWhile_append_of_pos (tight_of_mem_takeWhile hle more),
    List.takeWhile_append_dropWhile]

theorem dropWhile_tight {power power' : Nat} (hle : power ≤ power')
    (more : List (BinaryOp × Expr Lexeme)) :
    more.dropWhile (tight power) = (more.dropWhile (tight power')).dropWhile (tight power) := by
  conv_lhs => rw [← List.takeWhile_append_dropWhile (p := tight power') (l := more)]
  rw [List.dropWhile_append_of_pos (tight_of_mem_takeWhile hle more)]

theorem tight_power_iff {op : BinaryOp} {next : BinaryOp × Expr Lexeme} :
    tight (Affix.between op).power next ↔ op.precedence < next.1.precedence := by
  rw [tight_iff, Affix.power, Affix.power]
  omega

/-- What comes behind a stretch of tighter operators takes the whole of what they are
part of. -/
theorem isLeftOf_of_dropWhile {op : BinaryOp} {more : List (BinaryOp × Expr Lexeme)}
    (left right : Expr Lexeme) :
    ∀ next ∈ (more.dropWhile (tight (Affix.between op).power)).head?,
      (Expr.joined op left right).IsLeftOf next.1 := by
  intro next hnext
  have h := List.head?_dropWhile_not (tight (Affix.between op).power) more
  rw [Option.mem_def.mp hnext] at h
  have h : ¬ tight (Affix.between op).power next := Bool.eq_false_iff.mp h
  exact Nat.not_lt.mp fun hlt => h (tight_power_iff.mpr hlt)

/-- An operator and the tighter ones behind its right operand make up one operand of
what comes next. -/
theorem ofChain_takeWhile_tight {op : BinaryOp} {power : Nat}
    (htight : power < (Affix.between op).power) {left : Expr Lexeme} (hleft : left.IsLeftOf op)
    (right : Expr Lexeme) (more : List (BinaryOp × Expr Lexeme)) :
    Expr.ofChain left (((op, right) :: more).takeWhile (tight power)) =
      Expr.ofChain
        (Expr.joined op left
          (Expr.ofChain right (more.takeWhile (tight (Affix.between op).power))))
        ((more.dropWhile (tight (Affix.between op).power)).takeWhile (tight power)) := by
  have hhigher : ∀ next ∈ more.takeWhile (tight (Affix.between op).power),
      op.precedence < next.1.precedence := by
    intro next hnext
    exact tight_power_iff.mp (List.mem_takeWhile_imp hnext)
  rw [List.takeWhile_cons_of_pos (tight_iff.mpr htight), takeWhile_tight (Nat.le_of_lt htight),
    Expr.ofChain_cons, Expr.attach_of_isLeftOf hleft, ← Expr.ofChain_ofChain,
    Expr.ofChain_joined hhigher]

/-- Climbing takes up the operators in front that are tight, and puts them where the
chain has them. -/
theorem climb_runs {pairs : List Pair} {more : List (BinaryOp × Expr Lexeme)}
    (h : AreLinks pairs more) {e : Expr Lexeme} (he : ∀ next ∈ more.head?, e.IsLeftOf next.1)
    (power : Nat) {n : Nat} (hn : pairs.length ≤ n) :
    ∃ rest, AreLinks rest (more.dropWhile (tight power)) ∧ rest.length ≤ pairs.length ∧
      (climb n power (e.resolve limit depth) (Pair.parts limit pairs)).Runs
        (.ok ((Expr.ofChain e (more.takeWhile (tight power))).resolve limit depth,
          Pair.parts limit rest)) depth := by
  -- the operators that remain behind a right operand are fewer, not a part of the list
  induction hlen : more.length using Nat.strongRecOn
    generalizing pairs more e n power with | _ len ih
  cases h with
  | nil =>
    refine ⟨[], .nil, Nat.le_refl _, ?_⟩
    rw [Pair.parts, climb]
    exact .pure _ depth
  | @cons op right operator operands rest more hlabel hoperand hmore =>
    obtain ⟨m, rfl⟩ := Nat.exists_eq_add_of_le' (show 1 ≤ n by simp at hn; omega)
    have hm : operands.length + rest.length ≤ m := by simp at hn; omega
    have hlength : rest.length ≤ (operator :: (operands ++ rest)).length := by simp; omega
    rw [Pair.parts, climb, Pair.part_pair, hlabel]
    show ∃ _, _ ∧ _ ∧ Build.Runs (if power < (Affix.between op).power then _ else _) _ _
    by_cases htight : power < (Affix.between op).power
    · rw [if_pos htight, ofChain_takeWhile_tight htight (he _ rfl),
        List.dropWhile_cons_of_pos (tight_iff.mpr htight), dropWhile_tight (Nat.le_of_lt htight)]
      have hshorter : (more.dropWhile (tight (Affix.between op).power)).length < len := by
        rw [← hlen, List.length_cons]
        exact Nat.lt_succ_of_le (List.dropWhile_suffix _).length_le
      obtain ⟨behind, hbehind, hle, hright⟩ :=
        ih more.length (by rw [← hlen, List.length_cons]; omega) hmore
          (fun next _ => hoperand.isLeftOf next.1)
          (Affix.between op).power (show rest.length ≤ m by omega) rfl
      obtain ⟨last, hlast, hle', hwhole⟩ :=
        ih _ hshorter hbehind (isLeftOf_of_dropWhile e (Expr.ofChain right _))
          power (show behind.length ≤ m by omega) rfl
      refine ⟨last, hlast, by omega, ?_⟩
      refine (operand_runs limit depth hoperand hmore.loose hm).andThen ?_
      refine hright.andThen ?_
      rw [Operand.binary_resolve]
      exact hwhole
    · have hnot : ¬ tight power (op, right) := fun h => htight (tight_iff.mp h)
      rw [if_neg htight, List.dropWhile_cons_of_neg hnot, List.takeWhile_cons_of_neg hnot]
      exact ⟨_, .cons hlabel hoperand hmore, Nat.le_refl _, .pure _ depth⟩

/-- The tree of a whole chain. -/
theorem chain_runs {first pairs : List Pair} {e : Expr Lexeme}
    {more : List (BinaryOp × Expr Lexeme)} (hfirst : IsOperand first e)
    (hmore : AreLinks pairs more) :
    (chain (Pair.parts limit (first ++ pairs))).Runs
      ((Expr.ofChain e more).resolve limit depth) depth := by
  have hall : ∀ next ∈ more, tight 0 next := by
    intro next _
    rw [tight_iff, Affix.power]
    omega
  obtain ⟨rest, _, _, hclimb⟩ := climb_runs limit depth hmore
    (fun next _ => hfirst.isLeftOf next.1) 0 (show pairs.length ≤ (first ++ pairs).length by simp)
  rw [List.takeWhile_eq_self_iff.mpr hall] at hclimb
  unfold chain
  rw [Pair.length_parts]
  refine (operand_runs limit depth hfirst hmore.loose (by simp)).andThen ?_
  exact hclimb.andThen (.ofExcept _ depth)

end Part

-- ---------------------------------------------------------------------------
-- Parts by position
-- ---------------------------------------------------------------------------

namespace Part

variable (limit depth : Nat)

theorem telling_cons {pair : Pair} (h : pair.label.isFiller = false) (rest : List Pair) :
    telling (Pair.parts limit (pair :: rest)) =
      pair.part limit :: telling (Pair.parts limit rest) := by
  rw [Pair.parts]
  refine List.filter_cons_of_pos ?_
  rw [Pair.part_pair, h]
  rfl

theorem telling_filler {pair : Pair} (h : pair.label.isFiller = true) (rest : List Pair) :
    telling (Pair.parts limit (pair :: rest)) = telling (Pair.parts limit rest) := by
  rw [Pair.parts]
  refine List.filter_cons_of_neg ?_
  rw [Pair.part_pair, h]
  exact Bool.false_ne_true

theorem telling_append_filler {last : Pair} (h : last.label.isFiller = true) (pairs : List Pair) :
    telling (Pair.parts limit (pairs ++ [last])) = telling (Pair.parts limit pairs) := by
  have hlast : telling (Pair.parts limit [last]) = [] := telling_filler limit h []
  rw [Pair.parts_append, telling, List.filter_append]
  exact (congrArg _ hlast).trans (List.append_nil _)

theorem expect_runs {pair : Pair} (h : pair.label.isFiller = false) (loc : Location)
    (rest : List Pair) :
    (expect loc (telling (Pair.parts limit (pair :: rest)))).Runs
      (.ok (pair.part limit, telling (Pair.parts limit rest))) depth := by
  rw [telling_cons limit h]
  exact .pure _ depth

/-- Of all the pairs, none is passed over. -/
theorem each_runs {β γ : Type} {f : Part → Build β} {g : γ → Except ParseError β}
    {pairs : List Pair} {cs : List γ}
    (h : List.Forall₂ (fun pair c =>
      pair.label.isFiller = false ∧ (f (pair.part limit)).Runs (g c) depth) pairs cs) :
    (Build.each f (telling (Pair.parts limit pairs))).Runs (cs.mapM g) depth := by
  induction h with
  | nil => exact .pure [] depth
  | cons hfirst _ ih =>
    rw [List.mapM_cons, telling_cons limit hfirst.1]
    exact hfirst.2.bind fun b _ => ih.bind fun bs _ => .pure (b :: bs) depth

end Part

/-- The pair stands for the name. -/
structure Pair.IsName (pair : Pair) (x : Ident) : Prop where
  label : pair.label = .rule .ident
  name : String.ofList pair.text = x.name
  loc : pair.loc = x.loc

namespace Pair.IsName

variable {pair : Pair} {x : Ident}

theorem telling (h : pair.IsName x) : pair.label.isFiller = false := by
  rw [h.label]
  rfl

theorem ident (h : pair.IsName x) (limit : Nat) : (pair.part limit).ident = x := by
  unfold Part.ident
  rw [part_pair, h.name, h.loc]

end Pair.IsName

/-- The pair stands for the expression. -/
structure Pair.IsExpr (pair : Pair) (e : Expr Lexeme) : Prop where
  telling : pair.label.isFiller = false
  builds : pair.Builds e

theorem Part.idents_runs {pairs : List Pair} {names : List Ident}
    (h : List.Forall₂ Pair.IsName pairs names) (limit depth : Nat) :
    (Part.idents (telling (Pair.parts limit pairs))).Runs (.ok names) depth := by
  have hnames : names.mapM (pure : Ident → Except ParseError Ident) = .ok names :=
    (List.mapM_pure (f := id)).trans (congrArg Except.ok names.map_id)
  rw [← hnames]
  refine each_runs limit depth (h.imp fun pair x hname => ⟨hname.telling, ?_⟩)
  rw [Pair.part_pair, if_pos hname.label, hname.ident]
  exact .pure x depth

-- ---------------------------------------------------------------------------
-- Expressions
-- ---------------------------------------------------------------------------

namespace Pair.IsExpr

variable {loc : Location} {text : List Char}

theorem expr {pair : Pair} {e : Expr Lexeme} (h : pair.IsExpr e) :
    (Pair.node (.rule .expr) loc text [pair]).IsExpr e := by
  refine ⟨rfl, fun limit depth => ?_⟩
  exact (Part.expect_runs limit depth h.telling loc []).andThen (h.builds limit depth)

/-- The value of an assignment is looked for where its pair is, which goes on to the end
of the assignment. -/
theorem assignment {target sign pair : Pair} {x : Ident} {value : Expr Lexeme}
    (htarget : target.IsName x) (hsign : sign.label = .rule .assignOp)
    (hvalue : pair.IsExpr value) (hloc : pair.loc = value.loc.through loc) :
    (Pair.node (.rule .assignment) loc text [target, sign, pair]).IsExpr
      (.assign loc x value) := by
  refine ⟨rfl, fun limit depth => ?_⟩
  rw [Expr.resolve]
  refine (Part.expect_runs limit depth htarget.telling loc [sign, pair]).andThen ?_
  rw [Part.telling_filler limit (by rw [hsign]; rfl)]
  refine (Part.expect_runs limit depth hvalue.telling loc []).andThen ?_
  rw [part_pair, hloc, htarget.ident]
  exact (Build.Runs.nested _ (hvalue.builds limit _)).bind fun _ _ => .pure _ depth

theorem ternary_none {first : Pair} {cond : Expr Lexeme} (h : first.IsExpr cond) :
    (Pair.node (.rule .ternary) loc text [first]).IsExpr cond := by
  refine ⟨rfl, fun limit depth => ?_⟩
  refine (Part.expect_runs limit depth h.telling loc []).andThen ?_
  rw [← bind_pure (cond.resolve limit depth)]
  exact (h.builds limit depth).bind fun _ _ => .pure _ depth

theorem ternary_some {first second third : Pair} {cond onTrue onFalse : Expr Lexeme}
    (hcond : first.IsExpr cond) (htrue : second.IsExpr onTrue) (hfalse : third.IsExpr onFalse) :
    (Pair.node (.rule .ternary) loc text [first, second, third]).IsExpr
      (.ternary loc cond onTrue onFalse) := by
  refine ⟨rfl, fun limit depth => ?_⟩
  rw [Expr.resolve]
  refine (Part.expect_runs limit depth hcond.telling loc [second, third]).andThen ?_
  refine (hcond.builds limit depth).bind fun _ _ => ?_
  rw [Part.telling_cons limit htrue.telling]
  refine (Part.expect_runs limit depth hfalse.telling loc []).andThen ?_
  refine (Build.Runs.nested _ ?_).bind fun _ _ => .pure _ depth
  exact (htrue.builds limit _).bind fun _ _ => (hfalse.builds limit _).bind fun _ _ => .pure _ _

theorem binary {first pairs : List Pair} {e : Expr Lexeme} {more : List (BinaryOp × Expr Lexeme)}
    (hfirst : Pairs.IsOperand first e) (hmore : Pairs.AreLinks pairs more) :
    (Pair.node (.rule .binary) loc text (first ++ pairs)).IsExpr (Expr.ofChain e more) :=
  ⟨rfl, fun limit depth => Part.chain_runs limit depth hfirst hmore⟩

end Pair.IsExpr

namespace Pair.Builds

variable {loc : Location} {text : List Char}

theorem group {pair : Pair} {e : Expr Lexeme} (h : pair.IsExpr e) :
    (Pair.node (.rule .group) loc text [pair]).Builds (.group loc e) := by
  intro limit depth
  rw [Expr.resolve]
  refine (Part.expect_runs limit depth h.telling loc []).andThen ?_
  exact (Build.Runs.nested _ (h.builds limit _)).bind fun _ _ => .pure _ depth

theorem number {pair : Pair} {lexeme : Lexeme} (limit : Nat)
    (h : (pair.part limit).expr = Part.number pair lexeme) (depth : Nat) :
    (pair.part limit).expr.Runs
      ((Expr.literal pair.loc lexeme).resolve limit depth) depth := by
  rw [h, Part.number, Expr.resolve]
  cases lexeme.read? with
  | none => exact .ofExcept _ depth
  | some value => exact .pure _ depth

theorem int (cs : List Char) (inner : List Pair) :
    (Pair.node (.rule .int) loc cs inner).Builds (.literal loc (.int (String.ofList cs))) :=
  fun limit depth => number limit rfl depth

theorem float (cs : List Char) (inner : List Pair) :
    (Pair.node (.rule .float) loc cs inner).Builds (.literal loc (.float (String.ofList cs))) :=
  fun limit depth => number limit rfl depth

theorem bool {k : Keyword} {word : Pair} (h : word.label = .rule (.keyword k)) :
    (Pair.node (.rule .bool) loc text [word]).Builds (.literal loc (.bool (k = .true))) := by
  intro limit depth
  have hword : decide (word.label = .rule (.keyword .true)) = decide (k = .true) := by
    rw [h]
    cases k <;> rfl
  show (pure (.literal loc (.bool (decide (word.label = _)))) : Build (Expr Literal)).Runs _ _
  rw [hword]
  exact .pure _ depth

theorem string (inside : Location) (cs : List Char) :
    (Pair.node (.rule .string) loc text [.node .inside inside cs []]).Builds
      (.literal loc (.str (String.ofList (Word.unescape cs)))) :=
  fun _ depth => .pure _ depth

theorem name {pair : Pair} {x : Ident} (h : pair.IsName x) : pair.Builds (.name x.loc x.name) := by
  intro limit depth
  obtain ⟨label, loc, text, inner⟩ := pair
  obtain rfl : label = .rule .ident := h.label
  rw [← h.name, ← h.loc]
  exact .pure _ depth

end Pair.Builds

-- ---------------------------------------------------------------------------
-- Statements
-- ---------------------------------------------------------------------------

/-- The statement is what is built from the pair, under every limit and at every
depth. -/
structure Pair.IsStatement (pair : Pair) (s : Stmt Lexeme) : Prop where
  telling : pair.label.isFiller = false
  loc : pair.loc = s.loc
  runs : ∀ limit depth, (pair.part limit).statement.Runs (s.resolve limit depth) depth

/-- The pair stands for the type. -/
structure Pair.IsType (pair : Pair) (ty : Ty) : Prop where
  telling : pair.label.isFiller = false
  runs : ∀ limit depth, (pair.part limit).typeName.Runs (.ok ty) depth

/-- The type that a reserved word names. -/
def Keyword.ty? : Keyword → Option Ty
  | .int => some .int
  | .float => some .float
  | .bool => some .bool
  | .string => some .string
  | _ => none

theorem Pair.IsType.word {k : Keyword} {word : Pair} (hword : word.label = .rule (.keyword k))
    {ty : Ty} (hty : k.ty? = some ty) {loc : Location} {text : List Char} :
    (Pair.node (.rule .typeName) loc text [word]).IsType ty := by
  refine ⟨rfl, fun limit depth => ?_⟩
  show Build.Runs (Part.typeName ⟨.node (.rule .typeName) loc text [word], _, _⟩) _ _
  unfold Part.typeName
  simp only [Pair.inner, hword]
  cases k <;> cases hty <;> exact .pure _ depth

namespace Pair.IsStatement

variable {loc : Location} {text : List Char}

theorem body {pair : Pair} {s : Stmt Lexeme} (h : pair.IsStatement s) (limit depth : Nat) :
    ((pair.part limit).body limit).Runs
      (nested limit depth s.loc fun d => s.resolve limit d) depth := by
  rw [Part.body, part_pair, h.loc]
  exact .nested _ (h.runs limit _)

theorem all_runs {pairs : List Pair} {body : List (Stmt Lexeme)}
    (h : List.Forall₂ Pair.IsStatement pairs body) (limit depth : Nat) :
    (Build.each Part.statement (Part.telling (parts limit pairs))).Runs
      (Stmt.resolveAll limit depth body) depth := by
  induction h with
  | nil => exact .pure [] depth
  | cons hfirst _ ih =>
    rw [Stmt.resolveAll, Part.telling_cons limit hfirst.telling]
    exact (hfirst.runs limit depth).bind fun _ _ => ih.bind fun _ _ => .pure _ depth

theorem empty : (Pair.node (.rule .empty) loc text []).IsStatement (.empty loc) :=
  ⟨rfl, rfl, fun _ depth => .pure _ depth⟩

theorem block {pairs : List Pair} {body : List (Stmt Lexeme)}
    (h : List.Forall₂ Pair.IsStatement pairs body) :
    (Pair.node (.rule .block) loc text pairs).IsStatement (.block loc body) := by
  refine ⟨rfl, rfl, fun limit depth => ?_⟩
  rw [Stmt.resolve]
  exact (Build.Runs.nested _ (all_runs h limit _)).bind fun _ _ => .pure _ depth

theorem declaration {first : Pair} {ty : Ty} {pairs : List Pair} {names : List Ident}
    (hfirst : first.IsType ty) (hnames : List.Forall₂ Pair.IsName pairs names) :
    (Pair.node (.rule .declaration) loc text (first :: pairs)).IsStatement
      (.declaration loc ty names) := by
  refine ⟨rfl, rfl, fun limit depth => ?_⟩
  refine (Part.expect_runs limit depth hfirst.telling loc pairs).andThen ?_
  refine (hfirst.runs limit depth).andThen ?_
  exact (Part.idents_runs hnames limit depth).andThen (.pure _ depth)

theorem read {word : Pair} (hword : word.label = .rule (.keyword .read)) {pairs : List Pair}
    {names : List Ident} (hnames : List.Forall₂ Pair.IsName pairs names) :
    (Pair.node (.rule .read) loc text (word :: pairs)).IsStatement (.read loc names) := by
  refine ⟨rfl, rfl, fun limit depth => ?_⟩
  show Build.Runs (Part.idents (Part.telling (parts limit (word :: pairs))) >>= _) _ _
  rw [Part.telling_filler limit (by rw [hword]; rfl)]
  exact (Part.idents_runs hnames limit depth).andThen (.pure _ depth)

theorem write {word : Pair} (hword : word.label = .rule (.keyword .write)) {pairs : List Pair}
    {exprs : List (Expr Lexeme)}
    (h : List.Forall₂ Pair.IsExpr pairs exprs) :
    (Pair.node (.rule .write) loc text (word :: pairs)).IsStatement (.write loc exprs) := by
  refine ⟨rfl, rfl, fun limit depth => ?_⟩
  rw [Stmt.resolve]
  show Build.Runs (Build.each Part.expr (Part.telling (parts limit (word :: pairs))) >>= _) _ _
  rw [Part.telling_filler limit (by rw [hword]; rfl)]
  refine (Part.each_runs limit depth
    (h.imp fun _ _ he => ⟨he.telling, he.builds limit depth⟩)).bind ?_
  exact fun _ _ => .pure _ depth

theorem ifThen {word first second : Pair} (hword : word.label = .rule (.keyword .if))
    {cond : Expr Lexeme} {onTrue : Stmt Lexeme} (hcond : first.IsExpr cond)
    (htrue : second.IsStatement onTrue) :
    (Pair.node (.rule .ifStmt) loc text [word, first, second]).IsStatement
      (.ifThen loc cond onTrue) := by
  refine ⟨rfl, rfl, fun limit depth => ?_⟩
  rw [Stmt.resolve]
  show Build.Runs (Part.expect loc (Part.telling (parts limit [word, first, second])) >>= _) _ _
  rw [Part.telling_filler limit (by rw [hword]; rfl)]
  refine (Part.expect_runs limit depth hcond.telling loc [second]).andThen ?_
  refine (hcond.builds limit depth).bind fun _ _ => ?_
  refine (Part.expect_runs limit depth htrue.telling loc []).andThen ?_
  exact (htrue.body limit depth).bind fun _ _ => .pure _ depth

theorem ifElse {word first second other third : Pair} (hword : word.label = .rule (.keyword .if))
    (hother : other.label = .rule (.keyword .else)) {cond : Expr Lexeme}
    {onTrue onFalse : Stmt Lexeme} (hcond : first.IsExpr cond)
    (htrue : second.IsStatement onTrue) (hfalse : third.IsStatement onFalse) :
    (Pair.node (.rule .ifStmt) loc text [word, first, second, other, third]).IsStatement
      (.ifElse loc cond onTrue onFalse) := by
  refine ⟨rfl, rfl, fun limit depth => ?_⟩
  rw [Stmt.resolve]
  show Build.Runs
    (Part.expect loc (Part.telling (parts limit [word, first, second, other, third])) >>= _) _ _
  rw [Part.telling_filler limit (by rw [hword]; rfl)]
  refine (Part.expect_runs limit depth hcond.telling loc [second, other, third]).andThen ?_
  refine (hcond.builds limit depth).bind fun _ _ => ?_
  refine (Part.expect_runs limit depth htrue.telling loc [other, third]).andThen ?_
  refine (htrue.body limit depth).bind fun _ _ => ?_
  rw [Part.telling_filler limit (by rw [hother]; rfl), Part.telling_cons limit hfalse.telling]
  exact (hfalse.body limit depth).bind fun _ _ => .pure _ depth

theorem whileDo {word first second : Pair} (hword : word.label = .rule (.keyword .while))
    {cond : Expr Lexeme} {body : Stmt Lexeme} (hcond : first.IsExpr cond)
    (hbody : second.IsStatement body) :
    (Pair.node (.rule .whileDo) loc text [word, first, second]).IsStatement
      (.whileDo loc cond body) := by
  refine ⟨rfl, rfl, fun limit depth => ?_⟩
  rw [Stmt.resolve]
  show Build.Runs (Part.expect loc (Part.telling (parts limit [word, first, second])) >>= _) _ _
  rw [Part.telling_filler limit (by rw [hword]; rfl)]
  refine (Part.expect_runs limit depth hcond.telling loc [second]).andThen ?_
  refine (hcond.builds limit depth).bind fun _ _ => ?_
  refine (Part.expect_runs limit depth hbody.telling loc []).andThen ?_
  exact (hbody.body limit depth).bind fun _ _ => .pure _ depth

theorem doWhile {word first again second : Pair} (hword : word.label = .rule (.keyword .do))
    (hagain : again.label = .rule (.keyword .while)) {body : Stmt Lexeme} {cond : Expr Lexeme}
    (hbody : first.IsStatement body) (hcond : second.IsExpr cond) :
    (Pair.node (.rule .doWhile) loc text [word, first, again, second]).IsStatement
      (.doWhile loc body cond) := by
  refine ⟨rfl, rfl, fun limit depth => ?_⟩
  rw [Stmt.resolve]
  show Build.Runs
    (Part.expect loc (Part.telling (parts limit [word, first, again, second])) >>= _) _ _
  rw [Part.telling_filler limit (by rw [hword]; rfl)]
  refine (Part.expect_runs limit depth hbody.telling loc [again, second]).andThen ?_
  refine (hbody.body limit depth).bind fun _ _ => ?_
  rw [Part.telling_filler limit (by rw [hagain]; rfl)]
  refine (Part.expect_runs limit depth hcond.telling loc []).andThen ?_
  exact (hcond.builds limit depth).bind fun _ _ => .pure _ depth

theorem expression {pair : Pair} {e : Expr Lexeme} (h : pair.IsExpr e) :
    (Pair.node (.rule .expression) loc text [pair]).IsStatement (.expression loc e) := by
  refine ⟨rfl, rfl, fun limit depth => ?_⟩
  rw [Stmt.resolve]
  refine (Part.expect_runs limit depth h.telling loc []).andThen ?_
  exact (h.builds limit depth).bind fun _ _ => .pure _ depth

end Pair.IsStatement

end Cairn
