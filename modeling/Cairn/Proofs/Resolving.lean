import Cairn.Proofs.Terminals
import Mathlib.Data.List.Forall2

/-!
# Cairn — numbers resolved

A tree over lexemes denotes a tree over literals if the two have one shape and
each lexeme is read as the literal in its place. Resolving such a tree succeeds
where the limit leaves a level for each terminal of the tree, and gives the
literals in the same places. Locations are left out of all this.

## Main statements

* `Expr.Denotes.resolve` — resolving an expression gives what it denotes.
* `Stmt.ResolvesTo` — the same for statements, by their parts.
-/

namespace Cairn

-- ---------------------------------------------------------------------------
-- Results that are there
-- ---------------------------------------------------------------------------

/-- The computation returns something that satisfies `P`. -/
def Obtains {ε α : Type} (x : Except ε α) (P : α → Prop) : Prop :=
  ∃ a, x = .ok a ∧ P a

namespace Obtains

variable {ε α β γ : Type} {P : α → Prop} {Q : β → Prop}

theorem ok {a : α} (h : P a) : Obtains (.ok a : Except ε α) P :=
  ⟨a, rfl, h⟩

theorem bind {x : Except ε α} {f : α → Except ε β} (hx : Obtains x P)
    (hf : ∀ a, P a → Obtains (f a) Q) : Obtains (x >>= f) Q := by
  obtain ⟨a, rfl, ha⟩ := hx
  exact hf a ha

theorem mapM {f : α → Except ε β} {R : γ → α → Prop} {S : γ → β → Prop} {cs : List γ} {as : List α}
    (has : List.Forall₂ R cs as) (hf : ∀ c ∈ cs, ∀ a, R c a → Obtains (f a) (S c)) :
    Obtains (as.mapM f) (List.Forall₂ S cs) := by
  induction has with
  | nil => exact ok .nil
  | @cons c a cs as ha _ ih =>
    obtain ⟨hc, hcs⟩ := List.forall_mem_cons.mp hf
    rw [List.mapM_cons]
    exact (hc a ha).bind fun b hb => (ih hcs).bind fun bs hbs => ok (.cons hb hbs)

theorem nested {body : Nat → Except ParseError α} {limit depth : Nat} (loc : Location)
    (hdepth : depth < limit) (h : Obtains (body (depth + 1)) P) :
    Obtains (Cairn.nested limit depth loc body) P := by
  rw [Cairn.nested, if_neg (by omega)]
  exact h

end Obtains

-- ---------------------------------------------------------------------------
-- Expressions
-- ---------------------------------------------------------------------------

/-- The trees have one shape, and lexemes are read as the literals in their
place. -/
inductive Expr.Denotes : Expr Lexeme → Expr Literal → Prop
  | literal {loc loc' : Location} {lexeme : Lexeme} {value : Literal} :
      lexeme.read? = some value → Denotes (.literal loc lexeme) (.literal loc' value)
  | name {loc loc' : Location} {x : String} : Denotes (.name loc x) (.name loc' x)
  | group {loc loc' : Location} {a : Expr Lexeme} {e : Expr Literal} : Denotes a e →
      Denotes (.group loc a) (.group loc' e)
  | unary {loc loc' : Location} {op : UnaryOp} {a : Expr Lexeme} {e : Expr Literal} :
      Denotes a e → Denotes (.unary loc op a) (.unary loc' op e)
  | binary {loc loc' : Location} {op : BinaryOp} {a b : Expr Lexeme} {e f : Expr Literal} :
      Denotes a e → Denotes b f → Denotes (.binary loc op a b) (.binary loc' op e f)
  | assign {loc loc' : Location} {x x' : Ident} {a : Expr Lexeme} {e : Expr Literal} :
      x.name = x'.name → Denotes a e → Denotes (.assign loc x a) (.assign loc' x' e)
  | ternary {loc loc' : Location} {a b c : Expr Lexeme} {e f g : Expr Literal} :
      Denotes a e → Denotes b f → Denotes c g →
      Denotes (.ternary loc a b c) (.ternary loc' e f g)

theorem map_eq_map {α β γ : Type} {f : α → γ} {g : β → γ} {as : List α} {bs : List β}
    (h : List.Forall₂ (fun b a => f a = g b) bs as) : as.map f = bs.map g := by
  induction h with
  | nil => rfl
  | cons hab _ ih => rw [List.map_cons, List.map_cons, hab, ih]

theorem Ident.bare_eq {x x' : Ident} (h : x.name = x'.name) : x.bare = x'.bare := by
  rw [Ident.bare, Ident.bare, h]

namespace Expr

theorem Denotes.tightness_eq {a : Expr Lexeme} {e : Expr Literal} (h : a.Denotes e) :
    a.tightness = e.tightness := by
  cases h <;> rfl

/-- Resolving an expression gives what it denotes. -/
theorem Denotes.resolve {a : Expr Lexeme} {e : Expr Literal} (h : a.Denotes e) {limit depth : Nat}
    (hdepth : depth + e.terminals.length ≤ limit) :
    Obtains (a.resolve limit depth) fun r => r.bare = e.bare := by
  induction h generalizing depth with
  | literal hread =>
    rw [Expr.resolve, hread]
    exact .ok rfl
  | name => exact .ok rfl
  | group _ ih =>
    simp only [terminals, List.length_cons, List.length_append, List.length_nil] at hdepth
    refine (Obtains.nested _ (by omega) (ih (by omega))).bind fun r hr => .ok ?_
    rw [bare, bare, hr]
  | unary _ ih =>
    simp only [terminals, List.length_cons] at hdepth
    refine (ih (by omega)).bind fun r hr => .ok ?_
    rw [bare, bare, hr]
  | binary _ _ ihl ihr =>
    simp only [terminals, List.length_append, List.length_cons] at hdepth
    refine (ihl (by omega)).bind fun l hl => (ihr (by omega)).bind fun r hr => .ok ?_
    rw [bare, bare, hl, hr]
  | assign hx _ ih =>
    simp only [terminals, List.length_cons] at hdepth
    refine (Obtains.nested _ (by omega) (ih (by omega))).bind fun r hr => .ok ?_
    rw [bare, bare, hr, Ident.bare_eq hx]
  | @ternary _ _ _ onTrue onFalse _ e f _ _ _ ihc iht ihf =>
    simp only [terminals, List.length_append, List.length_cons] at hdepth
    refine (ihc (by omega)).bind fun cond hcond => ?_
    have hbranches : Obtains (onTrue.resolve limit (depth + 1) >>= fun t =>
        onFalse.resolve limit (depth + 1) >>= fun f => return (t, f)) fun branches =>
        branches.1.bare = e.bare ∧ branches.2.bare = f.bare :=
      (iht (by omega)).bind fun t ht => (ihf (by omega)).bind fun f hf => .ok ⟨ht, hf⟩
    refine (Obtains.nested _ (by omega) hbranches).bind fun branches hb => .ok ?_
    rw [bare, bare, hcond, hb.1, hb.2]

end Expr

/-- A part of a list has no more terminals than the list. -/
theorem length_le_commaSeparated {part : List Terminal} {parts : List (List Terminal)}
    (h : part ∈ parts) : part.length ≤ (commaSeparated parts).length := by
  cases parts with
  | nil => cases h
  | cons first rest =>
    rw [commaSeparated, List.length_append]
    rcases List.mem_cons.mp h with rfl | hin
    · exact Nat.le_add_right _ _
    · obtain ⟨before, after, rfl⟩ := List.append_of_mem hin
      simp only [List.flatMap_append, List.flatMap_cons, List.length_append, List.length_cons]
      omega

-- ---------------------------------------------------------------------------
-- Statements
-- ---------------------------------------------------------------------------

namespace Stmt

theorem terminalsAll_eq (body : List (Stmt Literal)) :
    terminalsAll body = body.flatMap terminals := by
  induction body with
  | nil => rfl
  | cons s rest ih => rw [terminalsAll, ih, List.flatMap_cons]

/-- Resolving the first statement gives the second one, locations apart. -/
def ResolvesTo (a : Stmt Lexeme) (s : Stmt Literal) : Prop :=
  ∀ limit depth : Nat, depth + s.terminals.length ≤ limit →
    Obtains (a.resolve limit depth) fun r => r.bare = s.bare

theorem resolveAll_obtains {as : List (Stmt Lexeme)} {body : List (Stmt Literal)}
    (h : List.Forall₂ (fun s a => a.ResolvesTo s) body as) {limit depth : Nat}
    (hdepth : depth + (terminalsAll body).length ≤ limit) :
    Obtains (resolveAll limit depth as) fun r => bareAll r = bareAll body := by
  induction h with
  | nil => exact .ok rfl
  | cons hs _ ih =>
    simp only [terminalsAll, List.length_append] at hdepth
    refine (hs _ _ (by omega)).bind fun r hr => (ih (by omega)).bind fun rest hrest => .ok ?_
    rw [bareAll, bareAll, hr, hrest]

namespace ResolvesTo

variable {loc loc' : Location} {a b : Stmt Lexeme} {s t : Stmt Literal} {cond : Expr Lexeme}
  {e : Expr Literal}

theorem empty : (Stmt.empty loc).ResolvesTo (.empty loc') :=
  fun _ _ _ => .ok rfl

theorem declaration {ty : Ty} {names names' : List Ident}
    (h : List.Forall₂ (fun x x' => x'.name = x.name) names' names) :
    (Stmt.declaration loc ty names).ResolvesTo (.declaration loc' ty names') := by
  refine fun _ _ _ => .ok ?_
  rw [bare, bare, map_eq_map (h.imp fun _ _ hx => Ident.bare_eq hx)]

theorem expression (h : cond.Denotes e) :
    (Stmt.expression loc cond).ResolvesTo (.expression loc' e) := by
  intro limit depth hdepth
  simp only [terminals, List.length_append] at hdepth
  refine (h.resolve (by omega)).bind fun r hr => .ok ?_
  rw [bare, bare, hr]

theorem read {names names' : List Ident}
    (h : List.Forall₂ (fun x x' => x'.name = x.name) names' names) :
    (Stmt.read loc names).ResolvesTo (.read loc' names') := by
  refine fun _ _ _ => .ok ?_
  rw [bare, bare, map_eq_map (h.imp fun _ _ hx => Ident.bare_eq hx)]

theorem write {as : List (Expr Lexeme)} {es : List (Expr Literal)}
    (h : List.Forall₂ (fun e a => a.Denotes e) es as) :
    (Stmt.write loc as).ResolvesTo (.write loc' es) := by
  intro limit depth hdepth
  simp only [terminals, List.length_cons, List.length_append] at hdepth
  have hes : Obtains (as.mapM (Expr.resolve limit depth))
      (List.Forall₂ (fun e r => r.bare = e.bare) es) := by
    refine Obtains.mapM h fun e he a ha => ha.resolve ?_
    have hlength := length_le_commaSeparated (List.mem_map_of_mem (f := Expr.terminals) he)
    omega
  refine hes.bind fun rs hrs => .ok ?_
  rw [bare, bare, map_eq_map hrs]

theorem block {as : List (Stmt Lexeme)} {body : List (Stmt Literal)}
    (h : List.Forall₂ (fun s a => a.ResolvesTo s) body as) :
    (Stmt.block loc as).ResolvesTo (.block loc' body) := by
  intro limit depth hdepth
  simp only [terminals, List.length_cons, List.length_append] at hdepth
  refine (Obtains.nested _ (by omega) (resolveAll_obtains h (by omega))).bind fun r hr => .ok ?_
  rw [bare, bare, hr]

theorem ifThen (hcond : cond.Denotes e) (h : a.ResolvesTo s) :
    (Stmt.ifThen loc cond a).ResolvesTo (.ifThen loc' e s) := by
  intro limit depth hdepth
  simp only [terminals, Expr.conditionTerminals, List.length_cons, List.length_append] at hdepth
  refine (hcond.resolve (by omega)).bind fun c hc => ?_
  refine (Obtains.nested _ (by omega) (h _ _ (by omega))).bind fun r hr => .ok ?_
  rw [bare, bare, hc, hr]

theorem ifElse (hcond : cond.Denotes e) (htrue : a.ResolvesTo s) (hfalse : b.ResolvesTo t) :
    (Stmt.ifElse loc cond a b).ResolvesTo (.ifElse loc' e s t) := by
  intro limit depth hdepth
  simp only [terminals, Expr.conditionTerminals, List.length_cons, List.length_append] at hdepth
  refine (hcond.resolve (by omega)).bind fun c hc => ?_
  refine (Obtains.nested _ (by omega) (htrue _ _ (by omega))).bind fun r hr => ?_
  refine (Obtains.nested _ (by omega) (hfalse _ _ (by omega))).bind fun r' hr' => .ok ?_
  rw [bare, bare, hc, hr, hr']

theorem whileDo (hcond : cond.Denotes e) (h : a.ResolvesTo s) :
    (Stmt.whileDo loc cond a).ResolvesTo (.whileDo loc' e s) := by
  intro limit depth hdepth
  simp only [terminals, Expr.conditionTerminals, List.length_cons, List.length_append] at hdepth
  refine (hcond.resolve (by omega)).bind fun c hc => ?_
  refine (Obtains.nested _ (by omega) (h _ _ (by omega))).bind fun r hr => .ok ?_
  rw [bare, bare, hc, hr]

theorem doWhile (h : a.ResolvesTo s) (hcond : cond.Denotes e) :
    (Stmt.doWhile loc a cond).ResolvesTo (.doWhile loc' s e) := by
  intro limit depth hdepth
  simp only [terminals, Expr.conditionTerminals, List.length_cons, List.length_append] at hdepth
  refine (Obtains.nested _ (by omega) (h _ _ (by omega))).bind fun r hr => ?_
  refine (hcond.resolve (by omega)).bind fun c hc => .ok ?_
  rw [bare, bare, hc, hr]

end ResolvesTo

end Stmt

end Cairn
