import Cairn.Proofs.Rendering

/-!
# Cairn — what the limit on nesting decides

Two passes count levels, the scan over the raw text and the resolving of the tree,
and the grammar runs between them. Both go up level by level, so that the first
level past the limit is always the next one, and a failure for the depth of a text
reports one level more than allowed. And neither of them looks at the limit for
anything else: under a larger one, whatever did not fail for its depth comes out
the same, a tree as well as the first number without a value.

## Main definitions

* `Nesting.Levels.Within` — what holds of the levels while the scan goes on.
* `Persists` — what resolving gives under a limit and under a larger one.

## Main statements

* `Nesting.stops_of_scan` — where the scan stops, and what it reports.
* `Nesting.scan_mono` — a text that passes still does under a larger limit.
* `Stmt.resolveAll_persists` — the same for the tree.
* `Program.limit_monotone` — both, for texts that are parsed.
-/

namespace Cairn

-- ---------------------------------------------------------------------------
-- The scan
-- ---------------------------------------------------------------------------

namespace Nesting

/-- Neither the levels nor those to go back to are past the limit, and what waits
for an operand is among the open levels. -/
structure Levels.Within (limit : Nat) (l : Levels) : Prop where
  pending_le : l.pending ≤ l.depth
  depth_le : l.depth ≤ limit
  opened_le : ∀ d ∈ l.opened, d ≤ limit

namespace Levels.Within

variable {limit : Nat} {l : Levels}

/-- At the start no level is open. -/
theorem start (limit : Nat) : ({} : Levels).Within limit :=
  ⟨Nat.zero_le _, Nat.zero_le _, List.forall_mem_nil _⟩

theorem settle (h : l.Within limit) : l.settle.Within limit :=
  ⟨Nat.zero_le _, Nat.le_trans (Nat.sub_le _ _) h.depth_le, h.opened_le⟩

theorem closeBracket (h : l.Within limit) : l.closeBracket.Within limit := by
  refine ⟨Nat.zero_le _, ?_, fun d hd => h.opened_le d (List.mem_of_mem_tail hd)⟩
  show l.opened.headD 0 ≤ limit
  cases hopened : l.opened with
  | nil => exact Nat.zero_le limit
  | cons d rest => exact h.opened_le d (by rw [hopened]; exact List.mem_cons_self)

theorem openBracket (h : l.Within limit) (hdepth : l.depth + 1 ≤ limit) :
    l.openBracket.Within limit := by
  refine ⟨Nat.zero_le _, hdepth, List.forall_mem_cons.mpr ⟨?_, h.opened_le⟩⟩
  exact Nat.le_trans (Nat.sub_le _ _) h.depth_le

theorem addPending (h : l.Within limit) (hdepth : l.depth + 1 ≤ limit) :
    l.addPending.Within limit :=
  ⟨Nat.succ_le_succ h.pending_le, hdepth, h.opened_le⟩

/-- **One character** keeps the levels within the limit, or it is an opening
bracket or a sign and goes past the limit by one. -/
theorem step (h : l.Within limit) (c : Char) :
    (l.step c).Within limit ∨
      (l.step c).depth = limit + 1 ∧ (c = '(' ∨ c = '\x7b' ∨ c = '-' ∨ c = '!') := by
  have hdepth := h.depth_le
  unfold Levels.step
  split
  · next hc =>
    by_cases hnext : l.depth + 1 ≤ limit
    · exact .inl (h.openBracket hnext)
    · have hlast : l.depth + 1 = limit + 1 := by omega
      exact .inr ⟨hlast, hc.elim .inl fun hc => .inr (.inl hc)⟩
  · split
    · exact .inl h.closeBracket
    · split
      · next hc =>
        by_cases hnext : l.depth + 1 ≤ limit
        · exact .inl (h.addPending hnext)
        · have hlast : l.depth + 1 = limit + 1 := by omega
          exact .inr ⟨hlast, .inr (.inr hc)⟩
      · split
        · exact .inl h
        · exact .inl h.settle

end Levels.Within

/-- The error is about an opening bracket or a sign in the text that starts at `p`,
and reports the first level past the limit. -/
def Stops (limit : Nat) (p : Place) (cs : List Char) (e : ParseError) : Prop :=
  ∃ before c after, cs = before ++ c :: after ∧ (c = '(' ∨ c = '\x7b' ∨ c = '-' ∨ c = '!') ∧
    e = ⟨.tooDeep (limit + 1) limit, .between (p.after before) ((p.after before).next c)⟩

theorem Stops.cons {limit : Nat} {p : Place} {c : Char} {cs : List Char} {e : ParseError}
    (h : Stops limit (p.next c) cs e) : Stops limit p (c :: cs) e := by
  obtain ⟨before, c', after, rfl, hc, rfl⟩ := h
  exact ⟨c :: before, c', after, rfl, hc, rfl⟩

/-- **Where the scan stops**: at a bracket or a sign, one level past the limit. -/
theorem stops_of_scan {limit : Nat} {region : Region} {l : Levels} {p : Place} {cs : List Char}
    {e : ParseError} (hl : l.Within limit) (h : scan limit region l p cs = some e) :
    Stops limit p cs e := by
  fun_induction scan limit region l p cs with
  | case1 l p cs ih => exact (ih hl h).cons.cons
  | case2 l p cs ih => exact (ih hl h).cons.cons
  | case3 l p cs ih => exact (ih hl.settle h).cons.cons
  | case4 l p cs _ _ _ ih => exact (ih hl h).cons
  | case5 l p c cs _ _ _ _ l' hdeep =>
    cases h
    rcases hl.step c with hwithin | ⟨hdepth, hc⟩
    · exact absurd hdeep (Nat.not_lt.mpr hwithin.depth_le)
    · exact ⟨[], c, cs, rfl, hc, by rw [show l'.depth = limit + 1 from hdepth]; rfl⟩
  | case6 l p c cs _ _ _ _ l' hdeep ih =>
    rcases hl.step c with hwithin | ⟨hdepth, -⟩
    · exact (ih hwithin h).cons
    · exact absurd (show limit < l'.depth by rw [hdepth]; omega) hdeep
  | case7 l p c cs ih => exact (ih hl h).cons
  | case8 l p cs ih => exact (ih hl h).cons.cons
  | case9 l p c cs _ ih => exact (ih hl h).cons
  | case10 l p c cs ih => exact (ih hl h).cons.cons
  | case11 l p c cs _ _ ih => exact (ih hl.settle h).cons
  | case12 l p c cs _ _ ih => exact (ih hl h).cons
  | case13 => cases h

/-- The error of the scan for a whole text. -/
theorem stops_of_check {limit : Nat} {source : List Char} {e : ParseError}
    (h : check limit source = some e) : Stops limit {} source e :=
  stops_of_scan (.start limit) h

/-- A text that the scan goes through is no deeper under a larger limit. -/
theorem scan_mono {limit limit' : Nat} (hle : limit ≤ limit') {region : Region} {l : Levels}
    {p : Place} {cs : List Char} (h : scan limit region l p cs = none) :
    scan limit' region l p cs = none := by
  fun_induction scan limit region l p cs with
  | case1 l p cs ih => exact ih h
  | case2 l p cs ih => exact ih h
  | case3 l p cs ih => exact ih h
  | case4 l p cs hline hblock hne ih =>
    rw [scan, if_pos rfl]
    · exact ih h
    · exact hline
    · exact hblock
    · exact hne
  | case5 => cases h
  | case6 l p c cs hline hblock hne hquote l' hdeep ih =>
    rw [scan, if_neg hquote]
    · show (if limit' < l'.depth then _ else scan limit' .code l' (p.next c) cs) = none
      rw [if_neg (by omega)]
      exact ih h
    · exact hline
    · exact hblock
    · exact hne
  | case7 l p c cs ih => exact ih h
  | case8 l p cs ih => exact ih h
  | case9 l p c cs hclose ih =>
    rw [scan]
    · exact ih h
    · exact hclose
  | case10 l p c cs ih => exact ih h
  | case11 l p c cs hescape hend ih =>
    rw [scan, if_pos hend]
    · exact ih h
    · exact hescape
  | case12 l p c cs hescape hend ih =>
    rw [scan, if_neg hend]
    · exact ih h
    · exact hescape
  | case13 region l p => cases region <;> rfl

end Nesting

-- ---------------------------------------------------------------------------
-- Resolving
-- ---------------------------------------------------------------------------

/-- What resolving gives under a limit, and under a larger one: the same, unless it
fails one level past the limit. It fails for no other reason than this and a number
without a value. -/
inductive Persists {α : Type} (limit : Nat) : Except ParseError α → Except ParseError α → Prop
  | ok (a : α) : Persists limit (.ok a) (.ok a)
  | badNumber (text : String) (loc : Location) :
      Persists limit (.error ⟨.badNumber text, loc⟩) (.error ⟨.badNumber text, loc⟩)
  | tooDeep (loc : Location) (y : Except ParseError α) :
      Persists limit (.error ⟨.tooDeep (limit + 1) limit, loc⟩) y

namespace Persists

variable {α β : Type} {limit limit' depth : Nat}

theorem bind {x y : Except ParseError α} {f g : α → Except ParseError β}
    (hx : Persists limit x y) (hf : ∀ a, Persists limit (f a) (g a)) :
    Persists limit (x >>= f) (y >>= g) := by
  cases hx with
  | ok a => exact hf a
  | badNumber text loc => exact .badNumber text loc
  | tooDeep loc y => exact .tooDeep loc _

/-- Where the limit is not passed yet, one level down is at most the next one. -/
theorem nested {body body' : Nat → Except ParseError α} (loc : Location) (hle : limit ≤ limit')
    (hdepth : depth ≤ limit)
    (h : depth + 1 ≤ limit → Persists limit (body (depth + 1)) (body' (depth + 1))) :
    Persists limit (Cairn.nested limit depth loc body) (Cairn.nested limit' depth loc body') := by
  unfold Cairn.nested
  by_cases hnext : limit < depth + 1
  · have hlast : depth + 1 = limit + 1 := by omega
    rw [if_pos hnext, hlast]
    exact .tooDeep loc _
  · rw [if_neg hnext, if_neg (by omega)]
    exact h (by omega)

theorem mapM {f g : α → Except ParseError β} {as : List α}
    (h : ∀ a, Persists limit (f a) (g a)) : Persists limit (as.mapM f) (as.mapM g) := by
  induction as with
  | nil => exact .ok []
  | cons a rest ih =>
    rw [List.mapM_cons, List.mapM_cons]
    exact (h a).bind fun b => ih.bind fun bs => .ok (b :: bs)

end Persists

section

variable {limit limit' : Nat}

theorem Expr.resolve_persists (hle : limit ≤ limit') (e : Expr Lexeme) {depth : Nat}
    (hdepth : depth ≤ limit) :
    Persists limit (e.resolve limit depth) (e.resolve limit' depth) := by
  induction e generalizing depth with
  | literal loc lexeme =>
    unfold Expr.resolve
    split
    · exact .ok _
    · exact .badNumber _ loc
  | name loc x => exact .ok _
  | group loc inner ih => exact (Persists.nested loc hle hdepth ih).bind fun _ => .ok _
  | unary loc op operand ih => exact (ih hdepth).bind fun _ => .ok _
  | binary loc op left right ihl ihr =>
    exact (ihl hdepth).bind fun _ => (ihr hdepth).bind fun _ => .ok _
  | assign loc target value ih => exact (Persists.nested _ hle hdepth ih).bind fun _ => .ok _
  | ternary loc cond onTrue onFalse ihc iht ihf =>
    refine (ihc hdepth).bind fun _ => ?_
    refine (Persists.nested loc hle hdepth fun hnext => ?_).bind fun _ => .ok _
    exact (iht hnext).bind fun _ => (ihf hnext).bind fun _ => .ok _

mutual

theorem Stmt.resolve_persists (hle : limit ≤ limit') (s : Stmt Lexeme) {depth : Nat}
    (hdepth : depth ≤ limit) :
    Persists limit (s.resolve limit depth) (s.resolve limit' depth) := by
  cases s with
  | empty loc => exact .ok _
  | declaration loc ty names => exact .ok _
  | expression loc e => exact (Expr.resolve_persists hle e hdepth).bind fun _ => .ok _
  | read loc names => exact .ok _
  | write loc exprs =>
    exact (Persists.mapM fun e => Expr.resolve_persists hle e hdepth).bind fun _ => .ok _
  | block loc body =>
    have hbody : depth + 1 ≤ limit → _ := fun hnext => Stmt.resolveAll_persists hle body hnext
    exact (Persists.nested loc hle hdepth hbody).bind fun _ => .ok _
  | ifThen loc cond onTrue =>
    have htrue : depth + 1 ≤ limit → _ := fun hnext => Stmt.resolve_persists hle onTrue hnext
    refine (Expr.resolve_persists hle cond hdepth).bind fun _ => ?_
    exact (Persists.nested _ hle hdepth htrue).bind fun _ => .ok _
  | ifElse loc cond onTrue onFalse =>
    have htrue : depth + 1 ≤ limit → _ := fun hnext => Stmt.resolve_persists hle onTrue hnext
    have hfalse : depth + 1 ≤ limit → _ := fun hnext => Stmt.resolve_persists hle onFalse hnext
    refine (Expr.resolve_persists hle cond hdepth).bind fun _ => ?_
    refine (Persists.nested _ hle hdepth htrue).bind fun _ => ?_
    exact (Persists.nested _ hle hdepth hfalse).bind fun _ => .ok _
  | whileDo loc cond body =>
    have hbody : depth + 1 ≤ limit → _ := fun hnext => Stmt.resolve_persists hle body hnext
    refine (Expr.resolve_persists hle cond hdepth).bind fun _ => ?_
    exact (Persists.nested _ hle hdepth hbody).bind fun _ => .ok _
  | doWhile loc body cond =>
    have hbody : depth + 1 ≤ limit → _ := fun hnext => Stmt.resolve_persists hle body hnext
    refine (Persists.nested _ hle hdepth hbody).bind fun _ => ?_
    exact (Expr.resolve_persists hle cond hdepth).bind fun _ => .ok _

theorem Stmt.resolveAll_persists (hle : limit ≤ limit') (body : List (Stmt Lexeme)) {depth : Nat}
    (hdepth : depth ≤ limit) :
    Persists limit (Stmt.resolveAll limit depth body) (Stmt.resolveAll limit' depth body) := by
  cases body with
  | nil => exact .ok []
  | cons s rest =>
    refine (Stmt.resolve_persists hle s hdepth).bind fun _ => ?_
    exact (Stmt.resolveAll_persists hle rest hdepth).bind fun _ => .ok _

end

end

-- ---------------------------------------------------------------------------
-- Texts
-- ---------------------------------------------------------------------------

/-- A text fails for its depth in one of the two passes. -/
theorem parseWithin_cases (limit : Nat) (source : String) :
    (∃ e, Nesting.check limit source.toList = some e ∧ parseWithin limit source = .error e) ∨
    Nesting.check limit source.toList = none ∧
      (recognize source.toList = none ∧
          parseWithin limit source = .error (syntaxError source.toList) ∨
        ∃ body, recognize source.toList = some body ∧
          parseWithin limit source = Stmt.resolveAll limit 0 body) := by
  unfold parseWithin
  cases hcheck : Nesting.check limit source.toList with
  | some e => exact .inl ⟨e, rfl, rfl⟩
  | none =>
    refine .inr ⟨rfl, ?_⟩
    cases hbody : recognize source.toList with
    | none => exact .inl ⟨rfl, rfl⟩
    | some body => exact .inr ⟨body, rfl, rfl⟩

/-- **The limit decides nothing else.** A text fails one level past the limit, or it is
parsed under any larger limit with the same result, a tree or an error. No failure for
the depth of a text reports another depth. -/
theorem Program.limit_monotone {limit limit' : Nat} (hle : limit ≤ limit') (source : String) :
    ((∃ loc, parseWithin limit source = .error ⟨.tooDeep (limit + 1) limit, loc⟩) ∨
      parseWithin limit' source = parseWithin limit source) ∧
    ∀ depth bound loc, parseWithin limit source = .error ⟨.tooDeep depth bound, loc⟩ →
      depth = limit + 1 ∧ bound = limit := by
  rcases parseWithin_cases limit source with ⟨e, hcheck, h⟩ | ⟨hcheck, hrest⟩
  · obtain ⟨before, c, after, -, -, rfl⟩ := Nesting.stops_of_check hcheck
    refine ⟨.inl ⟨_, h⟩, ?_⟩
    rw [h]
    rintro _ _ _ ⟨⟩
    exact ⟨rfl, rfl⟩
  have hcheck' : Nesting.check limit' source.toList = none := Nesting.scan_mono hle hcheck
  rcases hrest with ⟨hnone, h⟩ | ⟨body, hbody, h⟩
  · have h' : parseWithin limit' source = .error (syntaxError source.toList) := by
      unfold parseWithin
      rw [hcheck', hnone]
    refine ⟨.inr (h'.trans h.symm), ?_⟩
    rw [h]
    rintro _ _ _ ⟨⟩
  · have h' : parseWithin limit' source = Stmt.resolveAll limit' 0 body := by
      unfold parseWithin
      rw [hcheck', hbody]
    rw [h', h]
    have hpersists := Stmt.resolveAll_persists hle body (Nat.zero_le limit)
    generalize Stmt.resolveAll limit 0 body = x, Stmt.resolveAll limit' 0 body = y at hpersists
    cases hpersists with
    | ok program =>
      refine ⟨.inr rfl, ?_⟩
      rintro _ _ _ ⟨⟩
    | badNumber text loc =>
      refine ⟨.inr rfl, ?_⟩
      rintro _ _ _ ⟨⟩
    | tooDeep loc y =>
      refine ⟨.inl ⟨loc, rfl⟩, ?_⟩
      rintro _ _ _ ⟨⟩
      exact ⟨rfl, rfl⟩

/-- The error of a computation that fails. -/
def failure? {ε α : Type} : Except ε α → Option ε
  | .error e => some e
  | .ok _ => none

theorem eq_error_of_failure? {ε α : Type} {x : Except ε α} {e : ε} (h : failure? x = some e) :
    x = .error e := by
  cases x with
  | error e' => exact congrArg _ (Option.some.inj h)
  | ok a => cases h

/-- A number without a value stands in front of a chain of assignments that is two
levels deep. It is what is reported under a limit of one level, and so it is under a
larger one. -/
theorem Program.limit_monotone_twoDefects :
    let source := "write 9223372036854775808; x = y = 1;"
    parseWithin 1 source =
        .error ⟨.badNumber "9223372036854775808", ⟨⟨6, 25⟩, 1, 7⟩⟩ ∧
      parseWithin 5 source = parseWithin 1 source := by
  intro source
  have hone : parseWithin 1 source =
      .error ⟨.badNumber "9223372036854775808", ⟨⟨6, 25⟩, 1, 7⟩⟩ :=
    eq_error_of_failure? (by decide +kernel)
  refine ⟨hone, ?_⟩
  rcases (Program.limit_monotone (show 1 ≤ 5 by decide) source).1 with ⟨loc, hdeep⟩ | hsame
  · rw [hone] at hdeep
    cases hdeep
  · exact hsame

end Cairn
