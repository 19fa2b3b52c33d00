import Cairn.Proofs.Onward
import Cairn.Proofs.Order
import Cairn.Proofs.Thresholds

/-!
# Cairn — where reports point

Whatever is reported about a text points into it. A diagnostic has the location of a part
of the tree that it is about. A number without a value and a level past the limit are
reported where they stand, and what does not follow the grammar at the word that is in the
way.

## Main statements

* `Stmt.faultsFromAll_has`  — diagnostics point at parts of the tree.
* `Stmt.resolveAll_failsIn` — numbers and levels are reported where they stand.
* `Program.locations_integrity` — all locations of a text fit it.
-/

namespace Cairn

-- ---------------------------------------------------------------------------
-- Diagnostics
-- ---------------------------------------------------------------------------

theorem Node.has_loc (node : Node) : node.Has node.loc := by
  cases node
  exact .here

theorem BlamesAtMost.loc_eq {loc : Location} {faults : List Diagnostic}
    (h : BlamesAtMost loc faults) : ∀ d ∈ faults, d.loc = loc := by
  intro d hd
  rcases h with rfl | ⟨fault, rfl⟩
  · exact absurd hd List.not_mem_nil
  · rw [List.mem_singleton.mp hd]

/-- What a construct reports about itself is reported where it stands. -/
theorem loc_of_blames {P : Prop} {loc : Location} {faults : List Diagnostic}
    (h : faults = [] ∨ P ∧ BlamesAtMost loc faults) : ∀ d ∈ faults, d.loc = loc := by
  rcases h with rfl | ⟨-, hblames⟩
  · exact List.forall_mem_nil _
  · exact hblames.loc_eq

theorem judgeAssignment_loc (target : Ident) (found : Option Ty) (value : Ty) :
    ∀ d ∈ (judgeAssignment target found value).faults, d.loc = target.loc := by
  rcases judgeAssignment_blames target found value with hnil | ⟨-, hblames⟩ | hundeclared
  · rw [hnil]
    exact List.forall_mem_nil _
  · exact hblames.loc_eq
  · rw [hundeclared]
    exact List.forall_mem_singleton.mpr rfl

/-- All faults in the list are reported at the node or at a part of it. -/
def Node.HasAll (node : Node) (faults : List Diagnostic) : Prop :=
  ∀ d ∈ faults, node.Has d.loc

namespace Node.HasAll

variable {loc : Location} {name : Option String} {parts : List Node}
  {faults faults' : List Diagnostic}

theorem here (h : ∀ d ∈ faults, d.loc = loc) : (Node.node loc name parts).HasAll faults := by
  intro d hd
  rw [h d hd]
  exact .here

theorem append {node : Node} (h : node.HasAll faults) (h' : node.HasAll faults') :
    node.HasAll (faults ++ faults') :=
  List.forall_mem_append.mpr ⟨h, h'⟩

theorem part {part : Node} (h : part.HasAll faults) (hpart : part ∈ parts) :
    (Node.node loc name parts).HasAll faults :=
  fun d hd => .part hpart (h d hd)

end Node.HasAll

theorem Expr.hasAll_loc {e : Expr Literal} {faults : List Diagnostic}
    (h : ∀ d ∈ faults, d.loc = e.loc) : e.node.HasAll faults := by
  intro d hd
  rw [h d hd, ← e.node_loc]
  exact e.node.has_loc

/-- **The faults of an expression are reported at its parts.** -/
theorem Expr.faults_has (Γ : Symbols) (e : Expr Literal) : e.node.HasAll (e.faults Γ) := by
  induction e with
  | literal loc value => exact List.forall_mem_nil _
  | name loc x => exact .here (judgeName_blames loc x _).loc_eq
  | group loc inner ih => exact ih.part (by simp)
  | unary loc op operand ih =>
    exact (ih.part (by simp)).append (.here (loc_of_blames (op.judge_blames loc _)))
  | binary loc op left right ihl ihr =>
    have hown := loc_of_blames ((op.judge_blames loc (left.ty Γ) (right.ty Γ)).imp_right And.right)
    exact ((ihl.part (by simp)).append (ihr.part (by simp))).append (.here hown)
  | assign loc target value ih =>
    have htarget : target.node.HasAll
        (judgeAssignment target (Γ.find? target.name) (value.ty Γ)).faults :=
      .here (judgeAssignment_loc target _ _)
    exact (ih.part (by simp)).append (htarget.part (by simp))
  | ternary loc cond onTrue onFalse ihc iht ihf =>
    have hcond : cond.node.HasAll (Cairn.conditionFaults cond.loc (cond.ty Γ)) :=
      hasAll_loc (loc_of_blames (conditionFaults_blames _ _))
    have hown := loc_of_blames ((judgeBranches_blames loc (cond.ty Γ) (onTrue.ty Γ)
      (onFalse.ty Γ)).imp_right fun h => h.2.2)
    refine Node.HasAll.append ?_ (.here hown)
    exact (((ihc.append hcond).part (by simp)).append (iht.part (by simp))).append
      (ihf.part (by simp))

theorem Expr.conditionFaults_has (Γ : Symbols) (cond : Expr Literal) :
    cond.node.HasAll (cond.conditionFaults Γ) :=
  (cond.faults_has Γ).append (hasAll_loc (loc_of_blames (conditionFaults_blames _ _)))

theorem declareFaults_loc (ty : Ty) (Γ : Symbols) (names : List Ident) :
    ∀ d ∈ declareFaults ty Γ names, ∃ x ∈ names, d.loc = x.loc := by
  induction names generalizing Γ with
  | nil => exact List.forall_mem_nil _
  | cons x rest ih =>
    intro d hd
    rcases List.mem_append.mp hd with hfirst | hrest
    · refine ⟨x, List.mem_cons_self, ?_⟩
      split at hfirst
      · rw [List.mem_singleton.mp hfirst]
      · exact absurd hfirst List.not_mem_nil
    · obtain ⟨y, hy, hloc⟩ := ih _ d hrest
      exact ⟨y, List.mem_cons_of_mem x hy, hloc⟩

theorem readFaults_loc (Γ : Symbols) (x : Ident) : ∀ d ∈ readFaults Γ x, d.loc = x.loc := by
  unfold readFaults
  split
  · exact List.forall_mem_nil _
  · exact List.forall_mem_singleton.mpr rfl

mutual

theorem Stmt.faultsFrom_has (Γ : Symbols) (s : Stmt Literal) : s.node.HasAll (s.faultsFrom Γ) := by
  cases s with
  | empty loc => exact List.forall_mem_nil _
  | declaration loc ty names =>
    intro d hd
    obtain ⟨x, hx, hloc⟩ := declareFaults_loc ty Γ names d hd
    rw [hloc]
    exact .part (List.mem_map_of_mem hx) x.node.has_loc
  | expression loc e => exact (e.faults_has Γ).part (by simp)
  | read loc names =>
    intro d hd
    obtain ⟨x, hx, hd⟩ := List.mem_flatMap.mp hd
    rw [readFaults_loc Γ x d hd]
    exact .part (List.mem_map_of_mem hx) x.node.has_loc
  | write loc exprs =>
    intro d hd
    obtain ⟨e, he, hd⟩ := List.mem_flatMap.mp hd
    exact .part (List.mem_map_of_mem he) (e.faults_has Γ d hd)
  | block loc body =>
    intro d hd
    obtain ⟨node, hnode, hhas⟩ := Stmt.faultsFromAll_has Γ body d hd
    exact .part hnode hhas
  | ifThen loc cond onTrue =>
    have htrue := Stmt.faultsFrom_has Γ onTrue
    exact ((cond.conditionFaults_has Γ).part (by simp)).append (htrue.part (by simp))
  | ifElse loc cond onTrue onFalse =>
    have htrue := Stmt.faultsFrom_has Γ onTrue
    have hfalse := Stmt.faultsFrom_has (onTrue.symbolsAfter Γ) onFalse
    exact (((cond.conditionFaults_has Γ).part (by simp)).append (htrue.part (by simp))).append
      (hfalse.part (by simp))
  | whileDo loc cond body =>
    have hbody := Stmt.faultsFrom_has Γ body
    exact ((cond.conditionFaults_has Γ).part (by simp)).append (hbody.part (by simp))
  | doWhile loc body cond =>
    have hbody := Stmt.faultsFrom_has Γ body
    exact (hbody.part (by simp)).append ((cond.conditionFaults_has _).part (by simp))

theorem Stmt.faultsFromAll_has (Γ : Symbols) (body : List (Stmt Literal)) :
    ∀ d ∈ Stmt.faultsFromAll Γ body, ∃ node ∈ Stmt.nodes body, node.Has d.loc := by
  cases body with
  | nil => exact List.forall_mem_nil _
  | cons s rest =>
    intro d hd
    rcases List.mem_append.mp hd with hfirst | hrest
    · exact ⟨s.node, List.mem_cons_self, Stmt.faultsFrom_has Γ s d hfirst⟩
    · obtain ⟨node, hnode, hhas⟩ := Stmt.faultsFromAll_has (s.symbolsAfter Γ) rest d hrest
      exact ⟨node, List.mem_cons_of_mem _ hnode, hhas⟩

end

-- ---------------------------------------------------------------------------
-- Numbers and levels
-- ---------------------------------------------------------------------------

/-- If the computation fails, it is at some text of the source. -/
def FailsIn {α : Type} (source : List Char) (x : Except ParseError α) : Prop :=
  ∀ error, x = .error error → error.loc.IsIn source

namespace FailsIn

variable {α β : Type} {source : List Char}

theorem ok (a : α) : FailsIn source (.ok a) := by
  rintro _ ⟨⟩

theorem error {error : ParseError} (h : error.loc.IsIn source) :
    FailsIn source (.error error : Except ParseError α) := by
  rintro _ ⟨⟩
  exact h

theorem bind {x : Except ParseError α} {f : α → Except ParseError β} (hx : FailsIn source x)
    (hf : ∀ a, FailsIn source (f a)) : FailsIn source (x >>= f) := by
  cases x with
  | error e => exact error (hx e rfl)
  | ok a => exact hf a

theorem nested {limit depth : Nat} {loc : Location} {body : Nat → Except ParseError α}
    (hloc : loc.IsIn source) (hbody : FailsIn source (body (depth + 1))) :
    FailsIn source (Cairn.nested limit depth loc body) := by
  unfold Cairn.nested
  split
  · exact error hloc
  · exact hbody

end FailsIn

open Grammar

section

variable {limit : Nat} {source : List Char}

theorem Expr.Covers.isIn {L : Type} {S : L → Lexeme → Prop} {e : Expr L} {c d : Cursor}
    (h : e.Covers S c d) (hc : (Cursor.ofChars source).Precedes c) : e.loc.IsIn source := by
  rw [h.loc_eq]
  exact Cursor.isIn_upTo hc h.before

theorem Stmt.Covers.isIn {L : Type} {S : L → Lexeme → Prop} {s : Stmt L} {c d : Cursor}
    (h : s.Covers S c d) (hc : (Cursor.ofChars source).Precedes c) : s.loc.IsIn source := by
  rw [h.loc_eq]
  exact Cursor.isIn_upTo hc h.before

theorem Expr.resolve_failsIn {e : Expr Lexeme} {c d : Cursor} (h : e.Read c d)
    (hc : (Cursor.ofChars source).Precedes c) (depth : Nat) :
    FailsIn source (e.resolve limit depth) := by
  have hloc := h.isIn hc
  induction e generalizing c d depth with
  | literal loc lexeme =>
    unfold Expr.resolve
    split
    · exact .ok _
    · exact .error hloc
  | name loc x => exact .ok _
  | group loc inner ih =>
    obtain ⟨-, c₁, c₂, hopen, hinner, -⟩ := h
    have hfront := hc.trans (precedes_of_symbol hopen)
    have hbody := ih hinner hfront (depth + 1) (hinner.isIn hfront)
    exact (FailsIn.nested hloc hbody).bind fun _ => .ok _
  | unary loc op operand ih =>
    obtain ⟨-, c₁, hop, hoperand⟩ := h
    have hfront := hc.trans ((unaryOp_advances op).passes hop).1.skipGap
    exact (ih hoperand hfront depth (hoperand.isIn hfront)).bind fun _ => .ok _
  | binary loc op left right ihl ihr =>
    obtain ⟨-, c₁, c₂, hleft, hop, hright⟩ := h
    have hbehind := (hc.trans hleft.before.1.skipGap).trans (offset_of_binaryOp hop).1.skipGap
    refine (ihl hleft hc depth (hleft.isIn hc)).bind fun _ => ?_
    exact (ihr hright hbehind depth (hright.isIn hbehind)).bind fun _ => .ok _
  | assign loc target value ih =>
    obtain ⟨rfl, c₁, c₂, c₃, htarget, hop, hvalue, rfl⟩ := h
    have hbehind := (hc.trans (ident_advances c target c₁ htarget).1.skipGap).trans
      (assignOp_advances.passes hop).1.skipGap
    -- the report goes on to the end of the assignment, which may be behind the value
    have hvalueLoc : (value.loc.through (c.upTo c₃.skipGap)).IsIn source := by
      rw [hvalue.loc_eq]
      exact Cursor.isIn_upTo hbehind hvalue.before.skipGap
    have hbody := ih hvalue hbehind (depth + 1) (hvalue.isIn hbehind)
    exact (FailsIn.nested hvalueLoc hbody).bind fun _ => .ok _
  | ternary loc cond onTrue onFalse ihc iht ihf =>
    obtain ⟨-, c₁, c₂, c₃, c₄, c₅, hcond, hmark, htrue, hcolon, hfalse, -⟩ := h
    have hc₂ := (hc.trans hcond.before.1.skipGap).trans (precedes_of_symbol hmark)
    have hc₄ := (hc₂.trans htrue.before.1.skipGap).trans (precedes_of_symbol hcolon)
    refine (ihc hcond hc depth (hcond.isIn hc)).bind fun _ => ?_
    refine (FailsIn.nested hloc ?_).bind fun _ => .ok _
    refine (iht htrue hc₂ (depth + 1) (htrue.isIn hc₂)).bind fun _ => ?_
    exact (ihf hfalse hc₄ (depth + 1) (hfalse.isIn hc₄)).bind fun _ => .ok _

theorem Listed.mapM_failsIn {exprs : List (Expr Lexeme)} {c d : Cursor}
    (h : Listed Expr.Read exprs c d) (hc : (Cursor.ofChars source).Precedes c) (depth : Nat) :
    FailsIn source (exprs.mapM (Expr.resolve limit depth)) := by
  induction h with
  | one he =>
    rw [List.mapM_cons]
    exact (Expr.resolve_failsIn he hc depth).bind fun _ => .ok _
  | more he hcomma _ ih =>
    rw [List.mapM_cons]
    have hbehind := (hc.trans he.before.1.skipGap).trans (precedes_of_symbol hcomma)
    exact (Expr.resolve_failsIn he hc depth).bind fun _ => (ih hbehind).bind fun _ => .ok _

theorem Enclosed.resolve_failsIn {cond : Expr Lexeme} {c d : Cursor}
    (h : Enclosed "(" ")" cond.Read c d) (hc : (Cursor.ofChars source).Precedes c) (depth : Nat) :
    FailsIn source (cond.resolve limit depth) := by
  obtain ⟨c₁, c₂, hopen, hcond, -⟩ := h
  exact Expr.resolve_failsIn hcond (hc.trans (precedes_of_symbol hopen)) depth

mutual

theorem Stmt.resolve_failsIn {s : Stmt Lexeme} {c d : Cursor} (h : s.Read c d)
    (hc : (Cursor.ofChars source).Precedes c) (depth : Nat) :
    FailsIn source (s.resolve limit depth) := by
  have hloc := h.isIn hc
  cases s with
  | empty loc => exact .ok _
  | declaration loc ty names => exact .ok _
  | expression loc e =>
    obtain ⟨-, c₁, he, -⟩ := h
    exact (Expr.resolve_failsIn he hc depth).bind fun _ => .ok _
  | read loc names => exact .ok _
  | write loc exprs =>
    obtain ⟨-, c₁, c₂, hword, hexprs, -⟩ := h
    have hfront := hc.trans (precedes_of_keyword hword)
    exact (hexprs.mapM_failsIn hfront depth).bind fun _ => .ok _
  | block loc body =>
    obtain ⟨-, c₁, c₂, hopen, hbody, -⟩ := h
    have hfront := hc.trans (precedes_of_symbol hopen)
    have hbody := Stmt.resolveAll_failsIn hbody hfront (depth + 1)
    exact (FailsIn.nested hloc hbody).bind fun _ => .ok _
  | ifThen loc cond onTrue =>
    obtain ⟨-, c₁, c₂, c₃, hword, hcond, htrue, -⟩ := h
    have hfront := hc.trans (precedes_of_keyword hword)
    have hbehind := hfront.trans hcond.precedes.skipGap
    have htrue' := Stmt.resolve_failsIn htrue hbehind (depth + 1)
    refine (hcond.resolve_failsIn hfront depth).bind fun _ => ?_
    exact (FailsIn.nested (htrue.isIn hbehind) htrue').bind fun _ => .ok _
  | ifElse loc cond onTrue onFalse =>
    obtain ⟨-, c₁, c₂, c₃, c₄, hword, hcond, htrue, helse, hfalse⟩ := h
    have hfront := hc.trans (precedes_of_keyword hword)
    have hbehind := hfront.trans hcond.precedes.skipGap
    have hother := (hbehind.trans htrue.before.1.skipGap).trans
      (precedes_of_keyword helse)
    have htrue' := Stmt.resolve_failsIn htrue hbehind (depth + 1)
    have hfalse' := Stmt.resolve_failsIn hfalse hother (depth + 1)
    refine (hcond.resolve_failsIn hfront depth).bind fun _ => ?_
    refine (FailsIn.nested (htrue.isIn hbehind) htrue').bind fun _ => ?_
    exact (FailsIn.nested (hfalse.isIn hother) hfalse').bind fun _ => .ok _
  | whileDo loc cond body =>
    obtain ⟨-, c₁, c₂, hword, hcond, hbody⟩ := h
    have hfront := hc.trans (precedes_of_keyword hword)
    have hbehind := hfront.trans hcond.precedes.skipGap
    have hbody' := Stmt.resolve_failsIn hbody hbehind (depth + 1)
    refine (hcond.resolve_failsIn hfront depth).bind fun _ => ?_
    exact (FailsIn.nested (hbody.isIn hbehind) hbody').bind fun _ => .ok _
  | doWhile loc body cond =>
    obtain ⟨-, c₁, c₂, c₃, c₄, hword, hbody, hagain, hcond, -⟩ := h
    have hfront := hc.trans (precedes_of_keyword hword)
    have hbehind := (hfront.trans hbody.before.1.skipGap).trans
      (precedes_of_keyword hagain)
    have hbody' := Stmt.resolve_failsIn hbody hfront (depth + 1)
    refine (FailsIn.nested (hbody.isIn hfront) hbody').bind fun _ => ?_
    exact (hcond.resolve_failsIn hbehind depth).bind fun _ => .ok _

/-- **Numbers and levels are reported where they stand.** -/
theorem Stmt.resolveAll_failsIn {body : List (Stmt Lexeme)} {c d : Cursor}
    (h : Stmt.CoversAll Eq body c d) (hc : (Cursor.ofChars source).Precedes c) (depth : Nat) :
    FailsIn source (Stmt.resolveAll limit depth body) := by
  cases body with
  | nil => exact .ok []
  | cons s rest =>
    obtain ⟨c₁, hs, hrest⟩ := h
    have hfront := hc.trans c.precedes_skipGap
    refine (Stmt.resolve_failsIn hs hfront depth).bind fun _ => ?_
    exact (Stmt.resolveAll_failsIn hrest (hfront.trans hs.before.1) depth).bind fun _ => .ok _

end

end

-- ---------------------------------------------------------------------------
-- Texts
-- ---------------------------------------------------------------------------

/-- A level past the limit that the scan finds is reported at a character. -/
theorem Nesting.isIn_of_check {limit : Nat} {source : List Char} {error : ParseError}
    (h : Nesting.check limit source = some error) : error.loc.IsIn source := by
  obtain ⟨before, c, after, hsource, -, rfl⟩ := Nesting.stops_of_check h
  have hstart : (Cursor.ofChars source).Precedes ⟨c :: after, Place.after {} before⟩ :=
    ⟨before, hsource, rfl⟩
  have hnext : Cursor.Before ⟨c :: after, Place.after {} before⟩
      ⟨after, (Place.after {} before).next c⟩ := by
    refine ⟨⟨[c], rfl, rfl⟩, ?_⟩
    have hoffset := Place.offset_after (Place.after {} before) [c]
    have hpos := utf8Length_pos (List.cons_ne_nil c [])
    show (Place.after {} before).offset < ((Place.after {} before).after [c]).offset
    omega
  exact Cursor.isIn_upTo hstart hnext

theorem Stmt.resolveAll_isIn {limit : Nat} {source : List Char} {body : List (Stmt Lexeme)}
    {error : ParseError} (hbody : recognize source = some body)
    (h : Stmt.resolveAll limit 0 body = .error error) : error.loc.IsIn source := by
  obtain ⟨r, hrun, rfl⟩ := Option.map_eq_some_iff.mp hbody
  obtain ⟨d, hcovers, -⟩ := Grammar.program_covers hrun
  exact Stmt.resolveAll_failsIn hcovers (Cursor.precedes_skipGap _) 0 error h

/-- If a text is not parsed, the report points into it. -/
theorem Program.error_marks {limit : Nat} {source : String} {error : ParseError}
    (h : parseWithin limit source = .error error) :
    (∃ text, error.loc.Marks source.toList text) ∧
      ∀ expected found, error.fault = .unexpected expected found →
        error.loc.Quotes source.toList found := by
  rcases parseWithin_cases limit source with ⟨e, hcheck, h'⟩ | ⟨-, ⟨-, h'⟩ | ⟨body, hbody, h'⟩⟩
  · obtain rfl := Except.error.inj (h.symm.trans h')
    obtain ⟨text, -, hmarks⟩ := Nesting.isIn_of_check hcheck
    obtain ⟨before, c, after, -, -, rfl⟩ := Nesting.stops_of_check hcheck
    refine ⟨⟨text, hmarks⟩, ?_⟩
    rintro expected found ⟨⟩
  · obtain rfl := Except.error.inj (h.symm.trans h')
    obtain ⟨_, found, hfault, hquotes⟩ := syntaxError_quotes source.toList
    obtain ⟨text, hmarks, -⟩ := id hquotes
    refine ⟨⟨text, hmarks⟩, fun expected' found' hfault' => ?_⟩
    obtain ⟨-, rfl⟩ := ParseFault.unexpected.inj (hfault.symm.trans hfault')
    exact hquotes
  · obtain ⟨text, -, hmarks⟩ := Stmt.resolveAll_isIn hbody (h'.symm.trans h)
    refine ⟨⟨text, hmarks⟩, fun expected found hfault => ?_⟩
    have hpersists := Stmt.resolveAll_persists (Nat.le_refl limit) body (Nat.zero_le limit)
    rw [h'.symm.trans h] at hpersists
    cases hpersists <;> cases hfault

/-- **All locations fit the text.** In the tree of a text, each statement, expression and
name marks some text, a name its own; parts lie within what they are parts of, in order
and disjoint; and diagnostics point at some text. If there is no tree, the error points
into the text, and a syntax error at what it quotes. -/
theorem Program.locations_integrity (limit : Nat) (source : String) :
    (∀ program, parseWithin limit source = .ok program →
      (Stmt.nodes program).Pairwise Node.IsBefore ∧
      (∀ node ∈ Stmt.nodes program, node.Placed source.toList) ∧
      ∀ d ∈ program.compile.diagnostics, d.loc.IsIn source.toList) ∧
    ∀ error, parseWithin limit source = .error error →
      (∃ text, error.loc.Marks source.toList text) ∧
      ∀ expected found, error.fault = .unexpected expected found →
        error.loc.Quotes source.toList found := by
  refine ⟨fun program h => ?_, fun error h => Program.error_marks h⟩
  obtain ⟨d, hcovers, -⟩ := Program.covers_of_parse h
  have hstrung := hcovers.strung (Cursor.precedes_skipGap (.ofChars source.toList))
  refine ⟨hstrung.pairwise, hstrung.placed, fun diagnostic hdiagnostic => ?_⟩
  have hfaults : program.compile.diagnostics = Stmt.faultsFromAll .empty program := by
    rw [Program.compile_eq]
    rfl
  rw [hfaults] at hdiagnostic
  obtain ⟨node, hnode, hhas⟩ := Stmt.faultsFromAll_has .empty program diagnostic hdiagnostic
  exact (hstrung.placed node hnode).isIn hhas

end Cairn
