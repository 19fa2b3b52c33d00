import Cairn.Proofs.Depth
import Cairn.Proofs.Excess

/-!
# Cairn — texts that are rejected for their nesting

If a text is rejected under one limit on nesting and parsed under another, then
its tree goes past the first limit. What counts as a level is what the scan or
resolving counts: parentheses, also those around the condition of a statement,
blocks, unary operators, the value of an assignment, the branches of a choice
and the bodies of conditionals and loops. The scan does not know a binary minus
from a sign, so that the operand behind it stands one level deeper; no other
operator counts.

This holds of quiet texts. In others the scan may overlook a closing bracket
behind a carriage return.

## Main definitions

* `Expr.levels`, `Stmt.levels`       — the levels of a tree.
* `Expr.subtracts`, `Stmt.subtracts` — whether it has a binary minus.

## Main statements

* `Grammar.program_levels`        — the scan stops only if the tree is too deep.
* `Stmt.resolveAll_judged`        — and so does resolving.
* `Program.rejected_nests_deeper` — both, for parsed programs.
-/

namespace Cairn

open Nesting (Levels Exceeds)

-- ---------------------------------------------------------------------------
-- The levels of a tree
-- ---------------------------------------------------------------------------

section

variable {L : Type}

/-- The most levels on a path from the expression to a leaf: one for parentheses, a
unary operator, the value of an assignment and the branches of a choice, and `w`
for an operand that stands behind a binary minus. In front of the expression are
`front` levels, which its first operand takes up. -/
def Expr.levels : Expr L → Nat → Nat → Nat
  | .literal _ _, _, front => front
  | .name _ _, _, front => front
  | .group _ inner, w, front => front + (inner.levels w 0 + 1)
  | .unary _ _ operand, w, front => front + (operand.levels w 0 + 1)
  | .binary _ op left right, w, front =>
    max (left.levels w front) (right.levels w (if op = .sub then w else 0))
  | .assign _ _ value, w, front => front + (value.levels w 0 + 1)
  | .ternary _ cond onTrue onFalse, w, front =>
    max (cond.levels w front) (max (onTrue.levels w 0) (onFalse.levels w 0) + 1)

/-- The most levels of any of the expressions. -/
def Expr.levelsAll : List (Expr L) → Nat → Nat
  | [], _ => 0
  | e :: rest, w => max (e.levels w 0) (levelsAll rest w)

mutual

/-- The most levels on a path from the statement to a leaf: those of expressions,
and one for a block, the parentheses around a condition and the body of a
conditional or a loop. -/
def Stmt.levels : Stmt L → Nat → Nat
  | .empty _, _ => 0
  | .declaration _ _ _, _ => 0
  | .expression _ e, w => e.levels w 0
  | .read _ _, _ => 0
  | .write _ exprs, w => Expr.levelsAll exprs w
  | .block _ body, w => Stmt.levelsAll body w + 1
  | .ifThen _ cond onTrue, w => max (cond.levels w 0 + 1) (onTrue.levels w + 1)
  | .ifElse _ cond onTrue onFalse, w =>
    max (cond.levels w 0 + 1) (max (onTrue.levels w + 1) (onFalse.levels w + 1))
  | .whileDo _ cond body, w => max (cond.levels w 0 + 1) (body.levels w + 1)
  | .doWhile _ body cond, w => max (body.levels w + 1) (cond.levels w 0 + 1)

/-- The most levels of any of the statements. -/
def Stmt.levelsAll : List (Stmt L) → Nat → Nat
  | [], _ => 0
  | s :: rest, w => max (s.levels w) (Stmt.levelsAll rest w)

end

/-- There is a binary minus in the expression. -/
def Expr.subtracts : Expr L → Bool
  | .literal _ _ => false
  | .name _ _ => false
  | .group _ inner => inner.subtracts
  | .unary _ _ operand => operand.subtracts
  | .binary _ op left right => op = .sub || left.subtracts || right.subtracts
  | .assign _ _ value => value.subtracts
  | .ternary _ cond onTrue onFalse => cond.subtracts || onTrue.subtracts || onFalse.subtracts

mutual

/-- There is a binary minus in the statement. -/
def Stmt.subtracts : Stmt L → Bool
  | .empty _ => false
  | .declaration _ _ _ => false
  | .expression _ e => e.subtracts
  | .read _ _ => false
  | .write _ exprs => exprs.any Expr.subtracts
  | .block _ body => Stmt.subtractsAny body
  | .ifThen _ cond onTrue => cond.subtracts || onTrue.subtracts
  | .ifElse _ cond onTrue onFalse => cond.subtracts || onTrue.subtracts || onFalse.subtracts
  | .whileDo _ cond body => cond.subtracts || body.subtracts
  | .doWhile _ body cond => body.subtracts || cond.subtracts

/-- There is a binary minus in one of the statements. -/
def Stmt.subtractsAny : List (Stmt L) → Bool
  | [] => false
  | s :: rest => s.subtracts || Stmt.subtractsAny rest

end

-- ---------------------------------------------------------------------------
-- Without a binary minus
-- ---------------------------------------------------------------------------

theorem Expr.levels_of_not_subtracts {e : Expr L} (h : e.subtracts = false) (w front : Nat) :
    e.levels w front = e.levels 0 front := by
  induction e generalizing front with
  | literal loc value => rfl
  | name loc x => rfl
  | group loc inner ih => simp only [Expr.levels, ih h]
  | unary loc op operand ih => simp only [Expr.levels, ih h]
  | binary loc op left right ihl ihr =>
    simp only [Expr.subtracts, Bool.or_eq_false_iff, decide_eq_false_iff_not] at h
    simp only [Expr.levels, if_neg h.1.1, ihl h.1.2, ihr h.2]
  | assign loc target value ih => simp only [Expr.levels, ih h]
  | ternary loc cond onTrue onFalse ihc iht ihf =>
    simp only [Expr.subtracts, Bool.or_eq_false_iff] at h
    simp only [Expr.levels, ihc h.1.1, iht h.1.2, ihf h.2]

theorem Expr.levelsAll_of_not_subtracts {exprs : List (Expr L)}
    (h : exprs.any Expr.subtracts = false) (w : Nat) :
    Expr.levelsAll exprs w = Expr.levelsAll exprs 0 := by
  induction exprs with
  | nil => rfl
  | cons e rest ih =>
    obtain ⟨he, hrest⟩ := Bool.or_eq_false_iff.mp h
    simp only [Expr.levelsAll, Expr.levels_of_not_subtracts he w, ih hrest]

mutual

theorem Stmt.levels_of_not_subtracts {s : Stmt L} (h : s.subtracts = false) (w : Nat) :
    s.levels w = s.levels 0 := by
  cases s with
  | empty loc => rfl
  | declaration loc ty names => rfl
  | expression loc e => exact Expr.levels_of_not_subtracts h w 0
  | read loc names => rfl
  | write loc exprs => exact Expr.levelsAll_of_not_subtracts h w
  | block loc body =>
    have hbody : Stmt.subtractsAny body = false := h
    simp only [Stmt.levels, Stmt.levelsAll_of_not_subtracts hbody w]
  | ifThen loc cond onTrue =>
    simp only [Stmt.subtracts, Bool.or_eq_false_iff] at h
    simp only [Stmt.levels, Expr.levels_of_not_subtracts h.1 w,
      Stmt.levels_of_not_subtracts h.2 w]
  | ifElse loc cond onTrue onFalse =>
    simp only [Stmt.subtracts, Bool.or_eq_false_iff] at h
    simp only [Stmt.levels, Expr.levels_of_not_subtracts h.1.1 w,
      Stmt.levels_of_not_subtracts h.1.2 w, Stmt.levels_of_not_subtracts h.2 w]
  | whileDo loc cond body =>
    simp only [Stmt.subtracts, Bool.or_eq_false_iff] at h
    simp only [Stmt.levels, Expr.levels_of_not_subtracts h.1 w,
      Stmt.levels_of_not_subtracts h.2 w]
  | doWhile loc body cond =>
    simp only [Stmt.subtracts, Bool.or_eq_false_iff] at h
    simp only [Stmt.levels, Stmt.levels_of_not_subtracts h.1 w,
      Expr.levels_of_not_subtracts h.2 w]

theorem Stmt.levelsAll_of_not_subtracts {body : List (Stmt L)}
    (h : Stmt.subtractsAny body = false) (w : Nat) :
    Stmt.levelsAll body w = Stmt.levelsAll body 0 := by
  cases body with
  | nil => rfl
  | cons s rest =>
    simp only [Stmt.subtractsAny, Bool.or_eq_false_iff] at h
    simp only [Stmt.levelsAll, Stmt.levels_of_not_subtracts h.1 w,
      Stmt.levelsAll_of_not_subtracts h.2 w]

end

-- ---------------------------------------------------------------------------
-- Too many levels
-- ---------------------------------------------------------------------------

/-- The expression goes past the limit where `d` levels are open already. -/
def Expr.TooDeep (limit d : Nat) (e : Expr L) : Prop :=
  limit < d + e.levels 1 0

/-- The operand goes past the limit where `d` levels are open already, however many
of them it takes up as its own. -/
def Expr.TooDeepOperand (limit d : Nat) (e : Expr L) : Prop :=
  ∀ base front, base + front = d → limit < base + e.levels 1 front

/-- The statement goes past the limit where `d` levels are open already. -/
def Stmt.TooDeep (limit d : Nat) (s : Stmt L) : Prop :=
  limit < d + s.levels 1

variable {limit d : Nat}

theorem lt_add_of_le {m n : Nat} (h : limit < d + m) (hle : m ≤ n) : limit < d + n :=
  Nat.lt_of_lt_of_le h (Nat.add_le_add_left hle d)

theorem Expr.tooDeep_of_lt (e : Expr L) (h : limit < d) : e.TooDeep limit d :=
  Nat.lt_of_lt_of_le h (Nat.le_add_right d _)

theorem Stmt.tooDeep_of_lt (s : Stmt L) (h : limit < d) : s.TooDeep limit d :=
  Nat.lt_of_lt_of_le h (Nat.le_add_right d _)

theorem Expr.le_levels (e : Expr L) (w front : Nat) : front ≤ e.levels w front := by
  induction e generalizing front with
  | literal loc value => exact Nat.le_refl front
  | name loc x => exact Nat.le_refl front
  | binary loc op left right ihl _ => exact Nat.le_trans (ihl front) (Nat.le_max_left _ _)
  | ternary loc cond onTrue onFalse ihc _ _ =>
    exact Nat.le_trans (ihc front) (Nat.le_max_left _ _)
  | _ => exact Nat.le_add_right front _

theorem Expr.levels_mono (e : Expr L) (w : Nat) {front front' : Nat} (h : front ≤ front') :
    e.levels w front ≤ e.levels w front' := by
  induction e generalizing front front' with
  | literal loc value => exact h
  | name loc x => exact h
  | binary loc op left right ihl _ =>
    have hleft := ihl h
    show max (left.levels w front) _ ≤ max (left.levels w front') _
    omega
  | ternary loc cond onTrue onFalse ihc _ _ =>
    have hcond := ihc h
    show max (cond.levels w front) _ ≤ max (cond.levels w front') _
    omega
  | _ => exact Nat.add_le_add_right h _

theorem Expr.tooDeepOperand_of_lt (e : Expr L) (h : limit < d) : e.TooDeepOperand limit d := by
  intro base front hsum
  have hfront := e.le_levels 1 front
  omega

theorem Expr.TooDeepOperand.tooDeep {e : Expr L} (h : e.TooDeepOperand limit d) :
    e.TooDeep limit d :=
  h d 0 rfl

theorem Expr.levels_le_levelsAll {e : Expr L} {exprs : List (Expr L)} (h : e ∈ exprs) (w : Nat) :
    e.levels w 0 ≤ Expr.levelsAll exprs w := by
  induction h with
  | head => exact Nat.le_max_left _ _
  | tail _ _ ih => exact Nat.le_trans ih (Nat.le_max_right _ _)

theorem Stmt.levels_le_levelsAll {s : Stmt L} {body : List (Stmt L)} (h : s ∈ body) (w : Nat) :
    s.levels w ≤ Stmt.levelsAll body w := by
  induction h with
  | head => exact Nat.le_max_left _ _
  | tail _ _ ih => exact Nat.le_trans ih (Nat.le_max_right _ _)

-- ---------------------------------------------------------------------------
-- The trees of chains
-- ---------------------------------------------------------------------------

theorem Expr.levels_attach (op : BinaryOp) (right e : Expr L) (w front : Nat) :
    (Expr.attach op right e).levels w front =
      max (e.levels w front) (right.levels w (if op = .sub then w else 0)) := by
  induction e generalizing front with
  | binary loc op' left right' ihl ihr =>
    rw [Expr.attach]
    split
    · simp only [Expr.levels, ihr, Nat.max_assoc]
    · rfl
  | _ => rfl

theorem Expr.levels_le_ofChain (first : Expr L) (more : List (BinaryOp × Expr L)) (w : Nat) :
    first.levels w 0 ≤ (Expr.ofChain first more).levels w 0 := by
  induction more generalizing first with
  | nil => exact Nat.le_refl _
  | cons next more ih =>
    refine Nat.le_trans ?_ (ih (Expr.attach next.1 next.2 first))
    rw [Expr.levels_attach]
    exact Nat.le_max_left _ _

theorem Expr.levels_le_ofChain_of_mem (first : Expr L) {more : List (BinaryOp × Expr L)}
    {next : BinaryOp × Expr L} (h : next ∈ more) (w : Nat) :
    next.2.levels w (if next.1 = .sub then w else 0) ≤ (Expr.ofChain first more).levels w 0 := by
  induction more generalizing first with
  | nil => cases h
  | cons next' more ih =>
    rcases List.mem_cons.mp h with rfl | hmem
    · refine Nat.le_trans ?_ (Expr.levels_le_ofChain (Expr.attach next.1 next.2 first) more w)
      rw [Expr.levels_attach]
      exact Nat.le_max_right _ _
    · exact ih _ hmem

theorem Expr.TooDeepOperand.ofOperand {ops : List (UnaryOp × Location)} {operand : Expr L}
    (h : operand.TooDeepOperand limit (d + ops.length)) :
    (Expr.ofOperand ops operand).TooDeepOperand limit d := by
  induction ops generalizing d with
  | nil => exact h
  | cons op ops ih =>
    have hrest : operand.TooDeepOperand limit (d + 1 + ops.length) := by
      rw [Nat.add_assoc, Nat.add_comm 1]
      exact h
    have hinner : limit < d + 1 + (Expr.ofOperand ops operand).levels 1 0 := (ih hrest).tooDeep
    intro base front hsum
    show limit < base + (front + ((Expr.ofOperand ops operand).levels 1 0 + 1))
    omega

end

-- ---------------------------------------------------------------------------
-- Expressions of a quiet text
-- ---------------------------------------------------------------------------

namespace Grammar

open Parser.Answers

variable {limit : Nat} {S : Levels → Prop} {e : Parser (Expr Lexeme)}

theorem literal_answers {value : Parser Lexeme} (h : value.Answers limit S fun d _ => limit < d)
    (r : Rule) : (literal r value).Answers limit S (Expr.TooDeepOperand limit) := by
  refine rule (located (h.map ?_)) r
  intro d lexeme hd loc
  exact Expr.tooDeepOperand_of_lt _ hd

theorem group_answers (he : e.Answers limit Levels.IsSettled (Expr.TooDeep limit)) :
    (group e).Answers limit S (Expr.TooDeepOperand limit) := by
  refine rule (located (closed_answers (.inl rfl) (fun l => ?_) ?_)) _
  · refine (opened_meets (.inl rfl) he l).map fun inner _ h => h.imp_left ?_
    intro hinner loc base front hsum
    have hinner : limit < l.depth + 1 + inner.levels 1 0 := hinner
    show limit < base + (front + (inner.levels 1 0 + 1))
    omega
  · refine (Parser.Yields.any _).map fun inner _ d hd loc base front hsum => ?_
    show limit < base + (front + (inner.levels 1 0 + 1))
    omega

theorem primary_answers (he : e.Answers limit Levels.IsSettled (Expr.TooDeep limit)) :
    (primary e).Answers limit S (Expr.TooDeepOperand limit) := by
  have hfloat : (Parser.word Word.float).Answers limit S fun d _ => limit < d :=
    Word.plain_float.answers
  have hint : (Parser.word Word.int).Answers limit S fun d _ => limit < d :=
    Word.plain_int.answers
  have htrue : (keyword .true).Answers limit S fun d _ => limit < d := keyword_answers .true
  have hfalse : (keyword .false).Answers limit S fun d _ => limit < d := keyword_answers .false
  have hname : name.Answers limit S (Expr.TooDeepOperand limit) :=
    ident_answers.map fun _ _ hd => Expr.tooDeepOperand_of_lt _ hd
  exact orElse (literal_answers (hfloat.map fun _ _ hd => hd) _) <|
    orElse (literal_answers (hint.map fun _ _ hd => hd) _) <|
    orElse (literal_answers (string_answers.map fun _ _ hd => hd) _) <|
    orElse (literal_answers (orElse (htrue.map fun _ _ hd => hd)
      (hfalse.map fun _ _ hd => hd)) _) <|
    orElse hname (group_answers he)

theorem operand_answers (he : e.Answers limit Levels.IsSettled (Expr.TooDeep limit)) :
    (operand e).Answers limit S (Expr.TooDeepOperand limit) := by
  intro l _ c a d hready hexceeds hrun
  obtain ⟨f, c', primary, hf, hprimary, rfl⟩ := Parser.run_seq hrun
  obtain ⟨⟨ops, c''⟩, hops, heq⟩ := Option.map_eq_some_iff.mp hf
  cases heq
  -- The signs are levels in front of the primary expression, and its own in the tree.
  obtain ⟨m, hsettle, hdepth, hsigns⟩ := signs_meet c ops c'' hready hexceeds hops
  have hanswer := primary_answers (S := fun _ => True) he m trivial c''.skipGap primary d
    c''.ready_skipGap hsigns.gap hprimary
  rw [hsettle, hdepth] at hanswer
  exact hanswer.imp_left fun hoperand => hoperand.ofOperand

theorem binary_answers (he : e.Answers limit Levels.IsSettled (Expr.TooDeep limit)) :
    (binary e).Answers limit Levels.IsSettled (Expr.TooDeep limit) := by
  have hmore := operation_answers (operand_answers he) (fun _ _ => run_operand_star)
    fun _ operand hd => operand.tooDeepOperand_of_lt hd
  -- Attaching an operand keeps what was in the chain, wherever it goes in the tree.
  refine rule (seq ((operand_answers he).map ?_) hmore.many ?_) _
  · intro d first hfirst more
    exact lt_add_of_le hfirst.tooDeep (Expr.levels_le_ofChain first more 1)
  · refine (Parser.Yields.any _).map fun first _ d more hmore => ?_
    obtain ⟨next, hnext, hdeep⟩ := hmore
    exact lt_add_of_le (hdeep d _ rfl) (Expr.levels_le_ofChain_of_mem first hnext 1)

theorem ternary_answers (he : e.Answers limit Levels.IsSettled (Expr.TooDeep limit)) :
    (ternary e).Answers limit Levels.IsSettled (Expr.TooDeep limit) := by
  have hquestion : (symbol "?").Answers limit Levels.IsSettled fun d _ => limit < d :=
    symbol_answers (by decide) rfl
  have hcolon : (symbol ":").Answers limit Levels.IsSettled fun d _ => limit < d :=
    symbol_answers (by decide) rfl
  have hbase : ∀ d (_ : List Char) (branch : Expr Lexeme), limit < d → branch.TooDeep limit d :=
    fun _ _ branch hd => branch.tooDeep_of_lt hd
  have hbranches : (Prod.mk <$> (symbol "?" *> e) <*> (symbol ":" *> e)).Answers limit
      Levels.IsSettled fun d branches =>
        branches.1.TooDeep limit d ∨ branches.2.TooDeep limit d :=
    seq ((hquestion.seqRight he hbase).map fun _ _ ht _ => .inl ht) (hcolon.seqRight he hbase)
      ((Parser.Yields.any _).map fun _ _ _ _ hf => .inr hf)
  refine rule (located (seq ((binary_answers he).map ?_) hbranches.optional ?_)) _
  · intro d cond hcond branches loc
    cases branches with
    | none => exact hcond
    | some branches => exact lt_add_of_le hcond (Nat.le_max_left _ _)
  · refine (Parser.Yields.any _).map fun cond _ d branches hb loc => ?_
    obtain ⟨⟨onTrue, onFalse⟩, rfl, hdeep⟩ := hb
    have hdeep : limit < d + onTrue.levels 1 0 ∨ limit < d + onFalse.levels 1 0 := hdeep
    show limit < d + max (cond.levels 1 0) (max (onTrue.levels 1 0) (onFalse.levels 1 0) + 1)
    omega

theorem assignment_answers (he : e.Answers limit Levels.IsSettled (Expr.TooDeep limit)) :
    (assignment e).Answers limit Levels.IsSettled (Expr.TooDeep limit) := by
  have hassign : (Parser.word Word.assignOp).Answers limit Levels.IsSettled fun d _ => limit < d :=
    Word.plain_assignOp.answers
  have htarget : ident.Answers limit Levels.IsSettled fun d _ => limit < d := ident_answers
  refine rule (located (seq ((htarget.map ?_).seqLeft (hassign.rule _) ?_) he ?_)) _
  · intro d target hd value loc
    exact Expr.tooDeep_of_lt _ hd
  · intro d f _ hd value loc
    exact Expr.tooDeep_of_lt _ hd
  · refine ((Parser.Yields.any _).map fun target _ d value hvalue loc => ?_).seqLeft _
    have hvalue : limit < d + value.levels 1 0 := hvalue
    show limit < d + (0 + (value.levels 1 0 + 1))
    omega

theorem expr_answers (n : Nat) :
    (expr n).Answers limit Levels.IsSettled (Expr.TooDeep limit) := by
  induction n with
  | zero =>
    intro l _ c a d _ _ hrun
    cases hrun
  | succ n ih => exact rule (orElse (assignment_answers ih) (ternary_answers ih)) _

-- ---------------------------------------------------------------------------
-- Statements of a quiet text
-- ---------------------------------------------------------------------------

theorem commaList_answers {α : Type} {E : Nat → α → Prop} {p : Parser α}
    (hp : p.Answers limit Levels.IsSettled E) (hE : ∀ d a, limit < d → E d a) :
    (commaList p).Answers limit Levels.IsSettled fun d as => ∃ a ∈ as, E d a := by
  have hcomma : (symbol ",").Answers limit Levels.IsSettled fun d _ => limit < d :=
    symbol_answers (by decide) rfl
  have hrest := (hcomma.seqRight hp fun d _ a hd => hE d a hd).many
  refine seq (hp.map ?_) hrest ?_
  · intro d a ha more
    exact ⟨a, List.mem_cons_self, ha⟩
  · refine (Parser.Yields.any _).map fun a _ d more hmore => ?_
    obtain ⟨b, hb, hdeep⟩ := hmore
    exact ⟨b, List.mem_cons_of_mem a hb, hdeep⟩

theorem names_answer : (commaList ident).Answers limit Levels.IsSettled fun d _ => limit < d :=
  (commaList_answers ident_answers fun _ _ hd => hd).mono fun _ _ ⟨_, _, hd⟩ => hd

theorem typeName_answers : typeName.Answers limit S fun d _ => limit < d := by
  have hkeyword : ∀ (k : Keyword) (ty : Ty),
      ((fun _ => ty) <$> keyword k).Answers limit S fun d _ => limit < d :=
    fun k _ => (keyword_answers k).map fun _ _ hd => hd
  exact rule (orElse (hkeyword .int _) <| orElse (hkeyword .float _) <|
    orElse (hkeyword .bool _) (hkeyword .string _)) _

theorem semicolon_answers : (symbol ";").Answers limit S fun d _ => limit < d :=
  symbol_answers (by decide) rfl

/-- The parentheses around a condition are a level of the statement. -/
theorem condition_answers (he : e.Answers limit Levels.IsSettled (Expr.TooDeep limit)) :
    (condition e).Answers limit S fun d cond => limit < d + (cond.levels 1 0 + 1) := by
  refine closed_answers (.inl rfl) (fun l => ?_) fun _ cond _ _ d hd => ?_
  · refine (opened_meets (.inl rfl) he l).mono fun cond _ h => h.imp_left ?_
    intro hcond
    have hcond : limit < l.depth + 1 + cond.levels 1 0 := hcond
    omega
  · omega

variable {s : Parser (Stmt Lexeme)}

theorem keyword_then_answers {α : Type} {E : Nat → α → Prop} {p : Parser α} (k : Keyword)
    (hp : p.Answers limit Levels.IsSettled E) (hE : ∀ d a, limit < d → E d a) :
    (keyword k *> p).Answers limit Levels.IsSettled E :=
  (keyword_answers k).seqRight hp fun d _ a hd => hE d a hd

/-- A semicolon ends the statement, whose location is not known yet. -/
theorem ended_answers {p : Parser (Location → Stmt Lexeme)}
    (h : p.Answers limit Levels.IsSettled fun d f => ∀ loc, (f loc).TooDeep limit d) :
    (p <* symbol ";").Answers limit Levels.IsSettled fun d f => ∀ loc, (f loc).TooDeep limit d :=
  h.seqLeft semicolon_answers fun _ f _ hd loc => (f loc).tooDeep_of_lt hd

theorem body_answers (hs : s.Answers limit Levels.IsSettled (Stmt.TooDeep limit)) :
    (Parser.many s).Answers limit Levels.IsSettled fun d body =>
      limit < d + Stmt.levelsAll body 1 := by
  refine hs.many.mono fun d body hbody => ?_
  obtain ⟨stmt, hmem, hdeep⟩ := hbody
  exact lt_add_of_le hdeep (Stmt.levels_le_levelsAll hmem 1)

theorem block_answers (hs : s.Answers limit Levels.IsSettled (Stmt.TooDeep limit)) :
    (block s).Answers limit S (Stmt.TooDeep limit) := by
  refine rule (located (closed_answers (.inr rfl) (fun l => ?_) ?_)) _
  · refine (opened_meets (.inr rfl) (body_answers hs) l).map fun body _ h => h.imp_left ?_
    intro hbody loc
    show limit < l.depth + (Stmt.levelsAll body 1 + 1)
    omega
  · refine (Parser.Yields.any _).map fun body _ d hd loc => ?_
    show limit < d + (Stmt.levelsAll body 1 + 1)
    omega

theorem write_answers (he : e.Answers limit Levels.IsSettled (Expr.TooDeep limit)) :
    (write e).Answers limit Levels.IsSettled (Stmt.TooDeep limit) := by
  have hexprs : (commaList e).Answers limit Levels.IsSettled fun d exprs =>
      limit < d + Expr.levelsAll exprs 1 := by
    refine (commaList_answers he fun _ expr hd => expr.tooDeep_of_lt hd).mono ?_
    intro d exprs ⟨expr, hmem, hdeep⟩
    exact lt_add_of_le hdeep (Expr.levels_le_levelsAll hmem 1)
  have hwrite := keyword_then_answers .write hexprs fun _ _ hd => Nat.lt_add_right _ hd
  refine rule (located (ended_answers (hwrite.map ?_))) _
  intro d exprs hdeep loc
  exact hdeep

theorem keyword_condition_answers (he : e.Answers limit Levels.IsSettled (Expr.TooDeep limit))
    (k : Keyword) : (keyword k *> condition e).Answers limit Levels.IsSettled fun d cond =>
      limit < d + (cond.levels 1 0 + 1) :=
  keyword_then_answers k (condition_answers he) fun _ _ hd => Nat.lt_add_right _ hd

theorem ifStmt_answers (he : e.Answers limit Levels.IsSettled (Expr.TooDeep limit))
    (hs : s.Answers limit Levels.IsSettled (Stmt.TooDeep limit)) :
    (ifStmt e s).Answers limit Levels.IsSettled (Stmt.TooDeep limit) := by
  have helse := (keyword_then_answers .else hs fun _ stmt hd => stmt.tooDeep_of_lt hd).optional
  refine rule (located (seq (seq ((keyword_condition_answers he .if).map ?_) hs ?_) helse ?_)) _
  · intro d cond hcond onTrue onFalse loc
    cases onFalse with
    | none => exact lt_add_of_le hcond (Nat.le_max_left _ _)
    | some onFalse => exact lt_add_of_le hcond (Nat.le_max_left _ _)
  · refine (Parser.Yields.any _).map fun cond _ d onTrue htrue onFalse loc => ?_
    have htrue : limit < d + onTrue.levels 1 := htrue
    cases onFalse with
    | none =>
      show limit < d + max (cond.levels 1 0 + 1) (onTrue.levels 1 + 1)
      omega
    | some onFalse =>
      show limit < d + max (cond.levels 1 0 + 1) (max (onTrue.levels 1 + 1) (onFalse.levels 1 + 1))
      omega
  · refine Parser.Yields.seq (P := fun _ => True) ?_ (Parser.Yields.any _)
    refine (Parser.Yields.any _).map fun cond _ onTrue _ d onFalse hfalse loc => ?_
    obtain ⟨onFalse, rfl, hfalse⟩ := hfalse
    have hfalse : limit < d + onFalse.levels 1 := hfalse
    show limit < d + max (cond.levels 1 0 + 1) (max (onTrue.levels 1 + 1) (onFalse.levels 1 + 1))
    omega

theorem whileDo_answers (he : e.Answers limit Levels.IsSettled (Expr.TooDeep limit))
    (hs : s.Answers limit Levels.IsSettled (Stmt.TooDeep limit)) :
    (whileDo e s).Answers limit Levels.IsSettled (Stmt.TooDeep limit) := by
  refine rule (located (seq ((keyword_condition_answers he .while).map ?_) hs ?_)) _
  · intro d cond hcond body loc
    exact lt_add_of_le hcond (Nat.le_max_left _ _)
  · refine (Parser.Yields.any _).map fun cond _ d body hbody loc => ?_
    have hbody : limit < d + body.levels 1 := hbody
    show limit < d + max (cond.levels 1 0 + 1) (body.levels 1 + 1)
    omega

theorem doWhile_answers (he : e.Answers limit Levels.IsSettled (Expr.TooDeep limit))
    (hs : s.Answers limit Levels.IsSettled (Stmt.TooDeep limit)) :
    (doWhile e s).Answers limit Levels.IsSettled (Stmt.TooDeep limit) := by
  have hbody := keyword_then_answers .do hs fun _ stmt hd => stmt.tooDeep_of_lt hd
  have hcond := keyword_condition_answers he .while
  refine rule (located (ended_answers (seq (hbody.map ?_) hcond ?_))) _
  · intro d body hbody cond loc
    have hbody : limit < d + body.levels 1 := hbody
    show limit < d + max (body.levels 1 + 1) (cond.levels 1 0 + 1)
    omega
  · refine (Parser.Yields.any _).map fun body _ d cond hcond loc => ?_
    exact lt_add_of_le hcond (Nat.le_max_right _ _)

theorem statement_answers (n : Nat) :
    (statement n).Answers limit Levels.IsSettled (Stmt.TooDeep limit) := by
  induction n with
  | zero =>
    intro l _ c a d _ _ hrun
    cases hrun
  | succ n ih =>
    have he : (expr (n + 1)).Answers limit Levels.IsSettled (Expr.TooDeep limit) :=
      expr_answers (n + 1)
    have hleaf : ∀ d (stmt : Stmt Lexeme), limit < d → stmt.TooDeep limit d :=
      fun _ stmt hd => stmt.tooDeep_of_lt hd
    have hempty : empty.Answers limit Levels.IsSettled (Stmt.TooDeep limit) :=
      rule (located (semicolon_answers.map fun d _ hd loc => hleaf d _ hd)) _
    have hdeclaration : declaration.Answers limit Levels.IsSettled (Stmt.TooDeep limit) := by
      refine rule (located (ended_answers (seq (typeName_answers.map ?_) names_answer ?_))) _
      · exact fun d ty hd names loc => hleaf d _ hd
      · exact (Parser.Yields.any _).map fun ty _ d names hd loc => hleaf d _ hd
    have hread : read.Answers limit Levels.IsSettled (Stmt.TooDeep limit) := by
      have hnames : (keyword .read *> commaList ident).Answers limit Levels.IsSettled
          fun d _ => limit < d := keyword_then_answers .read names_answer fun _ _ hd => hd
      exact rule (located (ended_answers (hnames.map fun d _ hd loc => hleaf d _ hd))) _
    have hexpression : (expression (expr (n + 1))).Answers limit Levels.IsSettled
        (Stmt.TooDeep limit) := by
      refine rule (located (ended_answers (he.map ?_))) _
      exact fun _ _ he _ => he
    exact orElse hempty <| orElse (block_answers ih) <| orElse hdeclaration <| orElse hread <|
      orElse (write_answers he) <| orElse (ifStmt_answers he ih) <|
      orElse (whileDo_answers he ih) <| orElse (doWhile_answers he ih) hexpression

/-- If the scan stops in a quiet text, the tree of the text goes past the limit. -/
theorem program_levels {source : List Char} {body : List (Stmt Lexeme)}
    (hcheck : Nesting.check limit source ≠ none) (hquiet : Nesting.quiet .code source)
    (h : recognize source = some body) : limit < Stmt.levelsAll body 1 := by
  obtain ⟨⟨body, d⟩, hrun, rfl⟩ := Option.map_eq_some_iff.mp h
  obtain ⟨c, _, hrun, hend⟩ := Parser.run_seqLeft hrun
  obtain ⟨f, start, body', hf, hrun, rfl⟩ := Parser.run_seq hrun
  cases hf
  have hexceeds : Exceeds limit {} source := ⟨hquiet, .inr ⟨_, hcheck⟩⟩
  have hanswer := body_answers (statement_answers _) {} rfl _ body' c (Cursor.ready_skipGap _)
    hexceeds.gap hrun
  rcases hanswer with hbody | hbehind
  · rwa [Nat.zero_add] at hbody
  · -- Nothing is left behind the last statement but a gap.
    have hnil : c.skipGap.rest = [] := by
      have hend : (if c.skipGap.rest.isEmpty then some ((), c.skipGap) else none) = some _ := hend
      split at hend
      · next hempty => exact List.isEmpty_iff.mp hempty
      · cases hend
    have hlast : Exceeds limit {} c.skipGap.rest := hbehind.gap
    rw [hnil] at hlast
    exact absurd hlast.nil (Nat.not_lt_zero limit)

end Grammar

-- ---------------------------------------------------------------------------
-- Resolving
-- ---------------------------------------------------------------------------

/-- Whatever the computation returns satisfies `P`, and if it fails for the depth of
a tree, then `n` levels are past the limit. -/
structure Judged {α : Type} (limit : Nat) (x : Except ParseError α) (n : Nat) (P : α → Prop) :
    Prop where
  gives : Gives x P
  fails : ∀ k m loc, x = .error ⟨.tooDeep k m, loc⟩ → limit < n

namespace Judged

variable {α β : Type} {limit n n' : Nat} {P : α → Prop} {Q : β → Prop}

theorem ok {a : α} (h : P a) : Judged limit (.ok a) n P := by
  refine ⟨.ok h, ?_⟩
  intro k m loc heq
  cases heq

theorem bind {x : Except ParseError α} {f : α → Except ParseError β} (hx : Judged limit x n P)
    (hle : n ≤ n') (hf : ∀ a, P a → Judged limit (f a) n' Q) : Judged limit (x >>= f) n' Q := by
  refine ⟨hx.gives.bind fun a ha => (hf a ha).gives, ?_⟩
  intro k m loc heq
  cases x with
  | error fault =>
    cases heq
    exact Nat.lt_of_lt_of_le (hx.fails k m loc rfl) hle
  | ok a => exact (hf a (hx.gives a rfl)).fails k m loc heq

/-- Going down fails if that alone is too deep, or if it is what lies below. -/
theorem nested {body : Nat → Except ParseError α} {depth : Nat} (loc : Location)
    (h : Judged limit (body (depth + 1)) (depth + 1 + n) P) :
    Judged limit (Cairn.nested limit depth loc body) (depth + (n + 1)) P := by
  refine ⟨.nested limit depth loc h.gives, ?_⟩
  intro k m loc' heq
  unfold Cairn.nested at heq
  split at heq
  · omega
  · have hbelow := h.fails k m loc' heq
    omega

end Judged

variable {limit : Nat} (w : Nat)

theorem Expr.resolve_judged (e : Expr Lexeme) (depth : Nat) :
    Judged limit (e.resolve limit depth) (depth + e.levels w 0) fun r => r.levels = e.levels := by
  induction e generalizing depth with
  | literal loc lexeme =>
    rw [Expr.resolve]
    split
    · exact .ok rfl
    · refine ⟨?_, ?_⟩
      · intro r hr
        cases hr
      · intro k m loc' heq
        cases heq
  | name loc x => exact .ok rfl
  | group loc inner ih =>
    refine (Judged.nested loc (ih (depth + 1))).bind ?_ fun r hr => .ok ?_
    · show depth + (inner.levels w 0 + 1) ≤ depth + (0 + (inner.levels w 0 + 1))
      omega
    · funext v front
      simp only [Expr.levels, hr]
  | unary loc op operand ih =>
    refine (ih depth).bind ?_ fun r hr => .ok ?_
    · show depth + operand.levels w 0 ≤ depth + (0 + (operand.levels w 0 + 1))
      omega
    · funext v front
      simp only [Expr.levels, hr]
  | binary loc op left right ihl ihr =>
    show Judged limit _ (depth + max (left.levels w 0)
      (right.levels w (if op = .sub then w else 0))) _
    have hright := right.levels_mono w (Nat.zero_le (if op = .sub then w else 0))
    refine (ihl depth).bind (by omega) fun l hl => ?_
    refine (ihr depth).bind (by omega) fun r hr => .ok ?_
    funext v front
    simp only [Expr.levels, hl, hr]
  | assign loc target value ih =>
    refine (Judged.nested _ (ih (depth + 1))).bind ?_ fun r hr => .ok ?_
    · show depth + (value.levels w 0 + 1) ≤ depth + (0 + (value.levels w 0 + 1))
      omega
    · funext v front
      simp only [Expr.levels, hr]
  | ternary loc cond onTrue onFalse ihc iht ihf =>
    show Judged limit _ (depth + max (cond.levels w 0)
      (max (onTrue.levels w 0) (onFalse.levels w 0) + 1)) _
    have hbranches : Judged limit (onTrue.resolve limit (depth + 1) >>= fun t =>
        onFalse.resolve limit (depth + 1) >>= fun f => return (t, f))
        (depth + 1 + max (onTrue.levels w 0) (onFalse.levels w 0)) fun branches =>
          branches.1.levels = onTrue.levels ∧ branches.2.levels = onFalse.levels := by
      refine (iht (depth + 1)).bind (by omega) fun t ht => ?_
      exact (ihf (depth + 1)).bind (by omega) fun f hf => .ok ⟨ht, hf⟩
    refine (ihc depth).bind (by omega) fun c hc => ?_
    refine (Judged.nested loc hbranches).bind (by omega) fun branches hb => .ok ?_
    funext v front
    simp only [Expr.levels, hc, hb.1, hb.2]

theorem Expr.resolveAll_judged (exprs : List (Expr Lexeme)) (depth : Nat) :
    Judged limit (exprs.mapM (Expr.resolve limit depth)) (depth + Expr.levelsAll exprs w) fun rs =>
      Expr.levelsAll rs = Expr.levelsAll exprs := by
  induction exprs with
  | nil => exact .ok rfl
  | cons e rest ih =>
    show Judged limit _ (depth + max (e.levels w 0) (Expr.levelsAll rest w)) _
    rw [List.mapM_cons]
    refine (Expr.resolve_judged w e depth).bind (by omega) fun r hr => ?_
    refine ih.bind (by omega) fun rs hrs => .ok ?_
    funext v
    simp only [Expr.levelsAll, hr, hrs]

mutual

theorem Stmt.resolve_judged (s : Stmt Lexeme) (depth : Nat) :
    Judged limit (s.resolve limit depth) (depth + s.levels w) fun r => r.levels = s.levels := by
  cases s with
  | empty loc => exact .ok rfl
  | declaration loc ty names => exact .ok rfl
  | expression loc e =>
    refine (Expr.resolve_judged w e depth).bind (Nat.le_refl _) fun r hr => .ok ?_
    funext v
    simp only [Stmt.levels, hr]
  | read loc names => exact .ok rfl
  | write loc exprs =>
    refine (Expr.resolveAll_judged w exprs depth).bind (Nat.le_refl _) fun rs hrs => .ok ?_
    funext v
    simp only [Stmt.levels, hrs]
  | block loc body =>
    have hbody := Stmt.resolveAll_judged body (depth + 1)
    refine (Judged.nested loc hbody).bind (Nat.le_refl _) fun rs hrs => .ok ?_
    funext v
    simp only [Stmt.levels, hrs]
  | ifThen loc cond onTrue =>
    show Judged limit _ (depth + max (cond.levels w 0 + 1) (onTrue.levels w + 1)) _
    have htrue := Stmt.resolve_judged onTrue (depth + 1)
    refine (Expr.resolve_judged w cond depth).bind (by omega) fun c hc => ?_
    refine (Judged.nested _ htrue).bind (by omega) fun t ht => .ok ?_
    funext v
    simp only [Stmt.levels, hc, ht]
  | ifElse loc cond onTrue onFalse =>
    show Judged limit _ (depth + max (cond.levels w 0 + 1)
      (max (onTrue.levels w + 1) (onFalse.levels w + 1))) _
    have htrue := Stmt.resolve_judged onTrue (depth + 1)
    have hfalse := Stmt.resolve_judged onFalse (depth + 1)
    refine (Expr.resolve_judged w cond depth).bind (by omega) fun c hc => ?_
    refine (Judged.nested _ htrue).bind (by omega) fun t ht => ?_
    refine (Judged.nested _ hfalse).bind (by omega) fun f hf => .ok ?_
    funext v
    simp only [Stmt.levels, hc, ht, hf]
  | whileDo loc cond body =>
    show Judged limit _ (depth + max (cond.levels w 0 + 1) (body.levels w + 1)) _
    have hbody := Stmt.resolve_judged body (depth + 1)
    refine (Expr.resolve_judged w cond depth).bind (by omega) fun c hc => ?_
    refine (Judged.nested _ hbody).bind (by omega) fun b hb => .ok ?_
    funext v
    simp only [Stmt.levels, hc, hb]
  | doWhile loc body cond =>
    show Judged limit _ (depth + max (body.levels w + 1) (cond.levels w 0 + 1)) _
    have hbody := Stmt.resolve_judged body (depth + 1)
    refine (Judged.nested _ hbody).bind (by omega) fun b hb => ?_
    refine (Expr.resolve_judged w cond depth).bind (by omega) fun c hc => .ok ?_
    funext v
    simp only [Stmt.levels, hb, hc]

theorem Stmt.resolveAll_judged (body : List (Stmt Lexeme)) (depth : Nat) :
    Judged limit (Stmt.resolveAll limit depth body) (depth + Stmt.levelsAll body w) fun rs =>
      Stmt.levelsAll rs = Stmt.levelsAll body := by
  cases body with
  | nil => exact .ok rfl
  | cons s rest =>
    show Judged limit _ (depth + max (s.levels w) (Stmt.levelsAll rest w)) _
    refine (Stmt.resolve_judged s depth).bind (by omega) fun r hr => ?_
    refine (Stmt.resolveAll_judged rest depth).bind (by omega) fun rs hrs => .ok ?_
    funext v
    simp only [Stmt.levelsAll, hr, hrs]

end

-- ---------------------------------------------------------------------------
-- Rejected texts
-- ---------------------------------------------------------------------------

/-- **Rejected texts nest deeply.** If a quiet text is parsed under some limit and
rejected for its nesting under another, then the tree has more levels than that
one allows, if the operand behind a binary minus counts as one. Where there is no
binary minus, that makes no difference. -/
theorem Program.rejected_nests_deeper {limit' : Nat} {source : String} {program : Program}
    {depth bound : Nat} {loc : Location} (hquiet : Nesting.quiet .code source.toList)
    (hparse : parseWithin limit' source = .ok program)
    (hreject : parseWithin limit source = .error ⟨.tooDeep depth bound, loc⟩) :
    limit < Stmt.levelsAll program 1 ∧
      (Stmt.subtractsAny program = false → limit < Stmt.levelsAll program 0) := by
  obtain ⟨body, hbody, hresolve⟩ := exists_of_parseWithin hparse
  have hsame := (Stmt.resolveAll_judged 1 body 0).gives program hresolve
  have hdeep : limit < Stmt.levelsAll program 1 := by
    rw [hsame]
    -- Either the scan rejects the text, or resolving does.
    unfold parseWithin at hreject
    split at hreject
    · next error hcheck =>
      exact Grammar.program_levels (by rw [hcheck]; exact Option.some_ne_none error) hquiet hbody
    · rw [hbody] at hreject
      have hfails := (Stmt.resolveAll_judged 1 body 0).fails depth bound loc hreject
      rwa [Nat.zero_add] at hfails
  refine ⟨hdeep, fun hminus => ?_⟩
  rwa [Stmt.levelsAll_of_not_subtracts hminus 1] at hdeep

theorem exists_error_of_check {source : String} {fault : ParseFault}
    (h : (Nesting.check limit source.toList).map ParseError.fault = some fault) :
    ∃ loc, parseWithin limit source = .error ⟨fault, loc⟩ := by
  obtain ⟨⟨_, loc⟩, hcheck, rfl⟩ := Option.map_eq_some_iff.mp h
  refine ⟨loc, ?_⟩
  unfold parseWithin
  rw [hcheck]

/-- Two signs and two pairs of parentheses take up four levels, one more than
allowed. The other operators and the comments do not count. -/
theorem Program.rejected_nests_deeper_signs :
    let source := "// (\r // (\nwrite 1 * 2 + -(!(x)) . \"(\", y;"
    ∃ program loc, parseWithin 4 source = .ok program ∧
      parseWithin 3 source = .error ⟨.tooDeep 4 3, loc⟩ ∧ Stmt.subtractsAny program = false ∧
      Stmt.levelsAll program 0 = 4 ∧ 3 < Stmt.levelsAll program 1 ∧
      3 < Stmt.levelsAll program 0 := by
  intro source
  have hquiet : Nesting.quiet .code source.toList := by decide +kernel
  obtain ⟨loc, hreject⟩ : ∃ loc, parseWithin 3 source = .error ⟨.tooDeep 4 3, loc⟩ :=
    exists_error_of_check (by decide +kernel)
  obtain ⟨program, hparse, hlevels⟩ : ∃ program, parseWithin 4 source = .ok program ∧
      (Stmt.levelsAll program 0, Stmt.subtractsAny program) = (4, false) :=
    exists_ok_of_toOption (by decide +kernel)
  obtain ⟨hfour, hminus⟩ := Prod.mk.inj hlevels
  obtain ⟨hdeep, hclaimed⟩ := Program.rejected_nests_deeper hquiet hparse hreject
  exact ⟨program, loc, hparse, hreject, hminus, hfour, hdeep, hclaimed hminus⟩

/-- A binary minus alone is a level to the scan, although the tree has none. And
where the scan takes a closing bracket for part of a comment, two pairs of
parentheses side by side are two levels. -/
theorem Program.rejected_within_limit :
    (∃ program loc, parseWithin 1 "1-1;" = .ok program ∧
      parseWithin 0 "1-1;" = .error ⟨.tooDeep 1 0, loc⟩ ∧ Stmt.levelsAll program 0 = 0) ∧
    ∃ program loc, parseWithin 2 "(1//\r);\n(2);" = .ok program ∧
      parseWithin 1 "(1//\r);\n(2);" = .error ⟨.tooDeep 2 1, loc⟩ ∧
      Stmt.levelsAll program 1 = 1 := by
  refine ⟨?_, ?_⟩
  · obtain ⟨program, hparse, hlevels⟩ : ∃ program, parseWithin 1 "1-1;" = .ok program ∧
        Stmt.levelsAll program 0 = 0 := exists_ok_of_toOption (by decide +kernel)
    obtain ⟨loc, hreject⟩ : ∃ loc, parseWithin 0 "1-1;" = .error ⟨.tooDeep 1 0, loc⟩ :=
      exists_error_of_check (by decide +kernel)
    exact ⟨program, loc, hparse, hreject, hlevels⟩
  · obtain ⟨program, hparse, hlevels⟩ : ∃ program,
        parseWithin 2 "(1//\r);\n(2);" = .ok program ∧ Stmt.levelsAll program 1 = 1 :=
      exists_ok_of_toOption (by decide +kernel)
    obtain ⟨loc, hreject⟩ : ∃ loc, parseWithin 1 "(1//\r);\n(2);" = .error ⟨.tooDeep 2 1, loc⟩ :=
      exists_error_of_check (by decide +kernel)
    exact ⟨program, loc, hparse, hreject, hlevels⟩

end Cairn
