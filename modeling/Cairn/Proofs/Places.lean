import Cairn.Proofs.Offsets
import Mathlib.Data.List.Induction

/-!
# Cairn — locations in a text

A location *marks* a stretch of a text if its span are the bytes of that stretch and its
line and column are counted off from the text in front: the line feeds there, and the
characters behind the last one. The stretch between two cursors of a text is marked by
the location between them.

Statements, expressions and names are seen here as nodes of one kind, which have a
location, possibly a name, and parts. The nodes of a parsed program are well placed: each
of them marks some text, which is the name if there is one, its parts lie within it, and
no two parts overlap or are out of order.

## Main definitions

* `Location.Marks` — the text that a location stands for.
* `Node`           — a tree with locations and names.
* `Node.Placed`    — the locations of a tree fit the text and one another.

## Main statements

* `Cursor.marks_upTo`       — the location between two cursors.
* `Stmt.CoversAll.strung`   — what covers a text is well placed.
-/

namespace Cairn

-- ---------------------------------------------------------------------------
-- Locations
-- ---------------------------------------------------------------------------

/-- The characters behind the last line feed. -/
def lastLine (cs : List Char) : List Char :=
  (cs.reverse.takeWhile (· ≠ '\n')).reverse

/-- The location stands for `text`, which is a stretch of the source: its span has the
bytes of the text, its line is one more than the line feeds in front, and its column is
one more than the characters behind the last of them. -/
def Location.Marks (loc : Location) (source text : List Char) : Prop :=
  ∃ before after, source = before ++ text ++ after ∧
    loc.span = ⟨utf8Length before, utf8Length before + utf8Length text⟩ ∧
    loc.line = 1 + before.count '\n' ∧ loc.column = 1 + (lastLine before).length

/-- The location stands for some text of the source. -/
def Location.IsIn (loc : Location) (source : List Char) : Prop :=
  ∃ text, text ≠ [] ∧ loc.Marks source text

theorem lastLine_append_singleton (cs : List Char) (c : Char) :
    lastLine (cs ++ [c]) = if c = '\n' then [] else lastLine cs ++ [c] := by
  unfold lastLine
  rw [List.reverse_append, List.reverse_singleton, List.singleton_append, List.takeWhile_cons]
  by_cases hc : c = '\n'
  · rw [if_neg (by simp [hc]), if_pos hc]
    rfl
  · rw [if_pos (by simp [hc]), if_neg hc, List.reverse_cons]

/-- The place behind a text that starts at the first line and column. -/
theorem Place.after_start (cs : List Char) :
    Place.after {} cs = ⟨utf8Length cs, 1 + cs.count '\n', 1 + (lastLine cs).length⟩ := by
  -- lines and columns are counted from the front, so the induction takes off the last character
  induction cs using List.reverseRecOn with
  | nil => rfl
  | append_singleton cs c ih =>
    rw [after_append, ih, after_cons, after_nil, utf8Length_append, List.count_append,
      lastLine_append_singleton]
    unfold next
    by_cases hc : c = '\n'
    · rw [if_pos hc, if_pos hc, hc]
      rfl
    · rw [if_neg hc, if_neg hc, List.count_singleton, if_neg (by simpa using hc),
        List.length_append]
      rfl

namespace Cursor

variable {source : List Char} {c d : Cursor}

/-- The stretch of text between two cursors is marked by the location between them. -/
theorem marks_upTo (hc : (ofChars source).Precedes c) (hd : c.Precedes d) :
    ∃ text, c.rest = text ++ d.rest ∧ (c.upTo d).Marks source text := by
  obtain ⟨before, hrest, hplace⟩ := hc
  obtain ⟨text, hrest', hplace'⟩ := hd
  have hstart : c.place = Place.after {} before := hplace
  have hstop : d.place = Place.after {} (before ++ text) := by
    rw [hplace', hstart, Place.after_append]
  refine ⟨text, hrest', before, d.rest, ?_, ?_, ?_, ?_⟩
  · rw [List.append_assoc, ← hrest']
    exact hrest
  · show (⟨c.place.offset, d.place.offset⟩ : Span) = _
    rw [hstart, hstop, Place.after_start, Place.after_start, utf8Length_append]
  · show c.place.line = _
    rw [hstart, Place.after_start]
  · show c.place.column = _
    rw [hstart, Place.after_start]

theorem Before.ne_nil (h : c.Before d) {text : List Char} (htext : c.rest = text ++ d.rest) :
    text ≠ [] := by
  rintro rfl
  have hsame := h.1.offset_add
  have hlt := h.2
  rw [htext, List.nil_append] at hsame
  omega

theorem isIn_upTo (hc : (ofChars source).Precedes c) (hd : c.Before d) :
    (c.upTo d).IsIn source := by
  obtain ⟨text, hrest, hmarks⟩ := marks_upTo hc hd.1
  exact ⟨text, hd.ne_nil hrest, hmarks⟩

end Cursor

/-- A name takes up exactly its text. -/
theorem Ident.Covers.marks {source : List Char} {x : Ident} {c d : Cursor} (h : x.Covers c d)
    (hc : (Cursor.ofChars source).Precedes c) : x.loc.Marks source x.name.toList := by
  obtain ⟨hprecedes, -, -⟩ := h.offset
  obtain ⟨text, hrest, hmarks⟩ := Cursor.marks_upTo hc hprecedes
  obtain ⟨hloc, hword⟩ := h.run_word
  obtain ⟨n, -, hname, rfl⟩ := Parser.run_word hword
  have hsplit : c.rest = x.name.toList ++ c.rest.drop n := by
    rw [hname, List.take_append_drop]
  have htext : text = x.name.toList := List.append_cancel_right (hrest.symm.trans hsplit)
  rw [hloc, ← htext]
  exact hmarks

-- ---------------------------------------------------------------------------
-- Nodes
-- ---------------------------------------------------------------------------

/-- A part of a program: where it stands, its name if it is one, and its own parts. -/
inductive Node where
  | node (loc : Location) (name : Option String) (parts : List Node)

namespace Node

def loc : Node → Location
  | .node loc _ _ => loc

/-- The node ends before the other one starts. -/
def IsBefore (a b : Node) : Prop :=
  a.loc.span.stop ≤ b.loc.span.start

/-- The node lies within the location. -/
def IsWithin (a : Node) (loc : Location) : Prop :=
  loc.span.start ≤ a.loc.span.start ∧ a.loc.span.stop ≤ loc.span.stop

/-- The node and all its parts fit the text and one another: each marks some text, which
is the name if it is one, and its parts lie within it, in order and disjoint. -/
inductive Placed (source : List Char) : Node → Prop
  | node {loc : Location} {name : Option String} {parts : List Node} {text : List Char} :
      text ≠ [] → loc.Marks source text → (∀ x ∈ name, text = x.toList) →
      (∀ part ∈ parts, part.IsWithin loc) → parts.Pairwise IsBefore →
      (∀ part ∈ parts, part.Placed source) → Placed source (.node loc name parts)

/-- The location is that of the node, or of one of its parts. -/
inductive Has (loc : Location) : Node → Prop
  | here {name : Option String} {parts : List Node} : Has loc (.node loc name parts)
  | part {loc' : Location} {name : Option String} {parts : List Node} {part : Node} :
      part ∈ parts → part.Has loc → Has loc (.node loc' name parts)

theorem Placed.isIn {source : List Char} {node : Node} (h : node.Placed source) {loc : Location}
    (hloc : node.Has loc) : loc.IsIn source := by
  induction hloc with
  | here =>
    cases h with
    | node hne hmarks => exact ⟨_, hne, hmarks⟩
  | part hpart _ ih =>
    cases h with
    | node _ _ _ _ _ hparts => exact ih (hparts _ hpart)

/-- The nodes stand one behind the other, between the two cursors. -/
inductive Strung (source : List Char) : List Node → Cursor → Cursor → Prop
  | nil {c d : Cursor} : c.Precedes d → Strung source [] c d
  | cons {node : Node} {rest : List Node} {c c₁ c₂ d : Cursor} : c.Precedes c₁ → c₁.Before c₂ →
      node.loc = c₁.upTo c₂ → node.Placed source → Strung source rest c₂ d →
      Strung source (node :: rest) c d

namespace Strung

variable {source : List Char} {nodes : List Node} {c d : Cursor}

theorem precedes (h : Strung source nodes c d) : c.Precedes d := by
  induction h with
  | nil hprecedes => exact hprecedes
  | cons hfront hbefore _ _ _ ih => exact hfront.trans (hbefore.1.trans ih)

theorem placed (h : Strung source nodes c d) : ∀ node ∈ nodes, node.Placed source := by
  induction h with
  | nil => exact List.forall_mem_nil _
  | cons _ _ _ hplaced _ ih => exact List.forall_mem_cons.mpr ⟨hplaced, ih⟩

theorem within (h : Strung source nodes c d) : ∀ node ∈ nodes, node.IsWithin (c.upTo d) := by
  induction h with
  | nil => exact List.forall_mem_nil _
  | @cons node rest c c₁ c₂ d hfront hbefore hloc _ hrest ih =>
    have hstart : c.offset ≤ c₁.offset := hfront.offset_le
    have hmiddle : c₁.offset < c₂.offset := hbefore.2
    have hstop : c₂.offset ≤ d.offset := hrest.precedes.offset_le
    refine List.forall_mem_cons.mpr ⟨?_, fun other hother => ?_⟩
    · rw [IsWithin, hloc]
      exact ⟨hstart, hstop⟩
    · obtain ⟨hfrom, hto⟩ := ih other hother
      have hfrom : c₂.offset ≤ other.loc.span.start := hfrom
      exact ⟨show c.offset ≤ _ by omega, hto⟩

theorem pairwise (h : Strung source nodes c d) : nodes.Pairwise IsBefore := by
  induction h with
  | nil => exact .nil
  | @cons node rest c c₁ c₂ d _ _ hloc _ hrest ih =>
    refine .cons (fun other hother => ?_) ih
    rw [IsBefore, hloc]
    exact (hrest.within other hother).1

/-- More text around the nodes changes nothing. -/
theorem widen {c' d' : Cursor} (h : Strung source nodes c d) (hc : c'.Precedes c)
    (hd : d.Precedes d') : Strung source nodes c' d' := by
  induction h generalizing c' with
  | nil hprecedes => exact .nil (hc.trans (hprecedes.trans hd))
  | cons hfront hbefore hloc hplaced _ ih =>
    exact .cons (hc.trans hfront) hbefore hloc hplaced (ih (.refl _) hd)

/-- A node is well placed if its parts stand one behind the other. -/
theorem node (h : Strung source nodes c d) (hc : (Cursor.ofChars source).Precedes c)
    (hd : c.Before d) : (Node.node (c.upTo d) none nodes).Placed source := by
  obtain ⟨text, hne, hmarks⟩ := Cursor.isIn_upTo hc hd
  refine .node hne hmarks ?_ h.within h.pairwise h.placed
  rintro _ ⟨⟩

end Strung

theorem placed_name {source : List Char} {x : Ident} {c d : Cursor} (h : x.Covers c d)
    (hc : (Cursor.ofChars source).Precedes c) :
    (Node.node x.loc (some x.name) []).Placed source := by
  have hmarks := h.marks hc
  have hne : x.name.toList ≠ [] := by
    intro hnil
    have hlength := h.offset
    rw [length_utf8Bytes, hnil] at hlength
    exact absurd hlength.2.1 (by rw [hlength.2.2]; exact Nat.lt_irrefl _)
  refine .node hne hmarks ?_ (List.forall_mem_nil _) .nil (List.forall_mem_nil _)
  rintro _ ⟨⟩
  rfl

end Node

-- ---------------------------------------------------------------------------
-- Trees as nodes
-- ---------------------------------------------------------------------------

section

variable {L : Type}

def Ident.node (x : Ident) : Node :=
  .node x.loc (some x.name) []

def Expr.node : Expr L → Node
  | .literal loc _ => .node loc none []
  | .name loc x => .node loc (some x) []
  | .group loc inner => .node loc none [inner.node]
  | .unary loc _ operand => .node loc none [operand.node]
  | .binary loc _ left right => .node loc none [left.node, right.node]
  | .assign loc target value => .node loc none [target.node, value.node]
  | .ternary loc cond onTrue onFalse => .node loc none [cond.node, onTrue.node, onFalse.node]

mutual

def Stmt.node : Stmt L → Node
  | .empty loc => .node loc none []
  | .declaration loc _ names => .node loc none (names.map Ident.node)
  | .expression loc e => .node loc none [e.node]
  | .read loc names => .node loc none (names.map Ident.node)
  | .write loc exprs => .node loc none (exprs.map Expr.node)
  | .block loc body => .node loc none (nodes body)
  | .ifThen loc cond onTrue => .node loc none [cond.node, onTrue.node]
  | .ifElse loc cond onTrue onFalse => .node loc none [cond.node, onTrue.node, onFalse.node]
  | .whileDo loc cond body => .node loc none [cond.node, body.node]
  | .doWhile loc body cond => .node loc none [body.node, cond.node]

def Stmt.nodes : List (Stmt L) → List Node
  | [] => []
  | s :: rest => s.node :: nodes rest

end

theorem Expr.node_loc (e : Expr L) : e.node.loc = e.loc := by
  cases e <;> rfl

theorem Stmt.node_loc (s : Stmt L) : s.node.loc = s.loc := by
  cases s <;> rfl

end

-- ---------------------------------------------------------------------------
-- What covers a text
-- ---------------------------------------------------------------------------

open Grammar

/-- What is read next after a word starts behind the gap. -/
theorem precedes_of_keyword {k : Keyword} {c d : Cursor} (h : (keyword k).Passes c d) :
    c.Precedes d.skipGap :=
  ((keyword_advances k).passes h).1.skipGap

theorem precedes_of_symbol {text : String} {c d : Cursor} (h : (symbol text).Passes c d) :
    c.Precedes d.skipGap :=
  (offset_of_symbol h).1.skipGap

section

variable {L : Type} {S : L → Lexeme → Prop} {source : List Char}

/-- **Expressions are well placed.** -/
theorem Expr.Covers.placed {e : Expr L} {c d : Cursor} (h : e.Covers S c d)
    (hc : (Cursor.ofChars source).Precedes c) : e.node.Placed source := by
  induction e generalizing c d with
  | literal loc value =>
    have hbefore := h.before
    obtain rfl : loc = c.upTo d := h.loc_eq
    exact Node.Strung.node (.nil hbefore.1) hc hbefore
  | name loc x => exact Node.placed_name h hc
  | group loc inner ih =>
    have hbefore := h.before
    obtain ⟨rfl, c₁, c₂, hopen, hinner, hclose⟩ := h
    have hfront := precedes_of_symbol hopen
    have hback := c₂.precedes_skipGap.trans (offset_of_symbol hclose).1
    refine Node.Strung.node ?_ hc hbefore
    exact .cons hfront hinner.before (inner.node_loc.trans hinner.loc_eq)
      (ih hinner (hc.trans hfront)) (.nil hback)
  | unary loc op operand ih =>
    have hbefore := h.before
    obtain ⟨rfl, c₁, hop, hoperand⟩ := h
    have hfront := ((unaryOp_advances op).passes hop).1.skipGap
    refine Node.Strung.node ?_ hc hbefore
    exact .cons hfront hoperand.before (operand.node_loc.trans hoperand.loc_eq)
      (ih hoperand (hc.trans hfront)) (.nil (.refl d))
  | binary loc op left right ihl ihr =>
    have hbefore := h.before
    obtain ⟨rfl, c₁, c₂, hleft, hop, hright⟩ := h
    have hbetween := c₁.precedes_skipGap.trans (offset_of_binaryOp hop).1.skipGap
    refine Node.Strung.node ?_ hc hbefore
    refine .cons (.refl c) hleft.before (left.node_loc.trans hleft.loc_eq) (ihl hleft hc) ?_
    exact .cons hbetween hright.before (right.node_loc.trans hright.loc_eq)
      (ihr hright (hc.trans (hleft.before.1.trans hbetween))) (.nil (.refl d))
  | assign loc target value ih =>
    have hbefore := h.before
    obtain ⟨rfl, c₁, c₂, c₃, htarget, hop, hvalue, rfl⟩ := h
    have hname := ident_advances c target c₁ htarget
    have hbetween := c₁.precedes_skipGap.trans (assignOp_advances.passes hop).1.skipGap
    refine Node.Strung.node ?_ hc hbefore
    refine .cons (.refl c) hname htarget.run_word.1 (Node.placed_name htarget hc) ?_
    exact .cons hbetween hvalue.before (value.node_loc.trans hvalue.loc_eq)
      (ih hvalue (hc.trans (hname.1.trans hbetween))) (.nil c₃.precedes_skipGap)
  | ternary loc cond onTrue onFalse ihc iht ihf =>
    have hbefore := h.before
    obtain ⟨rfl, c₁, c₂, c₃, c₄, c₅, hcond, hmark, htrue, hcolon, hfalse, rfl⟩ := h
    have hquestion := c₁.precedes_skipGap.trans (precedes_of_symbol hmark)
    have hcolon := c₃.precedes_skipGap.trans (precedes_of_symbol hcolon)
    have hc₂ := hc.trans (hcond.before.1.trans hquestion)
    have hc₄ := hc₂.trans (htrue.before.1.trans hcolon)
    refine Node.Strung.node ?_ hc hbefore
    refine .cons (.refl c) hcond.before (cond.node_loc.trans hcond.loc_eq) (ihc hcond hc) ?_
    refine .cons hquestion htrue.before (onTrue.node_loc.trans htrue.loc_eq) (iht htrue hc₂) ?_
    exact .cons hcolon hfalse.before (onFalse.node_loc.trans hfalse.loc_eq) (ihf hfalse hc₄)
      (.nil c₅.precedes_skipGap)

/-- An expression in front of what stands behind it. -/
theorem Expr.Covers.strung {e : Expr L} {nodes : List Node} {c c₁ c₂ d : Cursor}
    (h : e.Covers S c₁ c₂) (hc : (Cursor.ofChars source).Precedes c) (hfront : c.Precedes c₁)
    (hrest : Node.Strung source nodes c₂ d) : Node.Strung source (e.node :: nodes) c d :=
  .cons hfront h.before (e.node_loc.trans h.loc_eq) (h.placed (hc.trans hfront)) hrest

/-- The members of a list stand one behind the other. -/
theorem Listed.strung {α : Type} {R : α → Cursor → Cursor → Prop} {f : α → Node}
    (hf : ∀ a c d, R a c d → (Cursor.ofChars source).Precedes c →
      c.Before d ∧ (f a).loc = c.upTo d ∧ (f a).Placed source)
    {as : List α} {c d : Cursor} (h : Listed R as c d)
    (hc : (Cursor.ofChars source).Precedes c) : Node.Strung source (as.map f) c d := by
  induction h with
  | one ha =>
    obtain ⟨hbefore, hloc, hplaced⟩ := hf _ _ _ ha hc
    exact .cons (.refl _) hbefore hloc hplaced (.nil (.refl _))
  | @more a rest c c₁ c₂ d ha hcomma _ ih =>
    obtain ⟨hbefore, hloc, hplaced⟩ := hf _ _ _ ha hc
    have hbetween := c₁.precedes_skipGap.trans (precedes_of_symbol hcomma)
    have hrest := ih (hc.trans (hbefore.1.trans hbetween))
    exact .cons (.refl c) hbefore hloc hplaced (hrest.widen hbetween (.refl d))

theorem Listed.strung_names {names : List Ident} {c d : Cursor}
    (h : Listed Ident.Covers names c d) (hc : (Cursor.ofChars source).Precedes c) :
    Node.Strung source (names.map Ident.node) c d := by
  refine h.strung (f := Ident.node) (fun x c d hx hc => ?_) hc
  exact ⟨ident_advances c x d hx, (Ident.Covers.run_word hx).1, Node.placed_name hx hc⟩

theorem Listed.strung_exprs {exprs : List (Expr L)} {c d : Cursor}
    (h : Listed (Expr.Covers S) exprs c d) (hc : (Cursor.ofChars source).Precedes c) :
    Node.Strung source (exprs.map Expr.node) c d :=
  h.strung (fun e _ _ he hc => ⟨he.before, e.node_loc.trans he.loc_eq, he.placed hc⟩) hc

theorem Enclosed.precedes {cond : Expr L} {c d : Cursor}
    (h : Enclosed "(" ")" (cond.Covers S) c d) : c.Precedes d :=
  (h.before (by decide) fun _ _ hcond => hcond.before.1).1

/-- A condition stands between parentheses. -/
theorem Enclosed.strung {cond : Expr L} {nodes : List Node} {c c₁ c₂ d : Cursor}
    (h : Enclosed "(" ")" (cond.Covers S) c₁ c₂) (hc : (Cursor.ofChars source).Precedes c)
    (hfront : c.Precedes c₁) (hrest : Node.Strung source nodes c₂ d) :
    Node.Strung source (cond.node :: nodes) c d := by
  obtain ⟨b₁, b₂, hopen, hcond, hclose⟩ := h
  have hback := b₂.precedes_skipGap.trans (offset_of_symbol hclose).1
  exact hcond.strung hc (hfront.trans (precedes_of_symbol hopen))
    (hrest.widen hback (.refl d))

/-- A statement, already known to be well placed, in front of what stands behind it. -/
theorem Stmt.Covers.strung {s : Stmt L} {nodes : List Node} {c c₁ c₂ d : Cursor}
    (h : s.Covers S c₁ c₂) (hplaced : s.node.Placed source) (hfront : c.Precedes c₁)
    (hrest : Node.Strung source nodes c₂ d) : Node.Strung source (s.node :: nodes) c d :=
  .cons hfront h.before (s.node_loc.trans h.loc_eq) hplaced hrest

mutual

/-- **Statements are well placed.** -/
theorem Stmt.Covers.placed {s : Stmt L} {c d : Cursor} (h : s.Covers S c d)
    (hc : (Cursor.ofChars source).Precedes c) : s.node.Placed source := by
  have hbefore := h.before
  cases s with
  | empty loc =>
    obtain ⟨rfl, -⟩ := h
    exact Node.Strung.node (.nil hbefore.1) hc hbefore
  | declaration loc ty names =>
    obtain ⟨rfl, c₁, c₂, hty, hnames, hmark⟩ := h
    have hfront := (typeName_advances c ty c₁ hty).1.skipGap
    have hback := c₂.precedes_skipGap.trans (offset_of_symbol hmark).1
    have hstrung := (hnames.strung_names (hc.trans hfront)).widen hfront hback
    exact hstrung.node hc hbefore
  | expression loc e =>
    obtain ⟨rfl, c₁, he, hmark⟩ := h
    have hback := c₁.precedes_skipGap.trans (offset_of_symbol hmark).1
    exact (he.strung hc (.refl c) (.nil hback)).node hc hbefore
  | read loc names =>
    obtain ⟨rfl, c₁, c₂, hword, hnames, hmark⟩ := h
    have hfront := precedes_of_keyword hword
    have hback := c₂.precedes_skipGap.trans (offset_of_symbol hmark).1
    have hstrung := (hnames.strung_names (hc.trans hfront)).widen hfront hback
    exact hstrung.node hc hbefore
  | write loc exprs =>
    obtain ⟨rfl, c₁, c₂, hword, hexprs, hmark⟩ := h
    have hfront := precedes_of_keyword hword
    have hback := c₂.precedes_skipGap.trans (offset_of_symbol hmark).1
    have hstrung := (hexprs.strung_exprs (hc.trans hfront)).widen hfront hback
    exact hstrung.node hc hbefore
  | block loc body =>
    obtain ⟨rfl, c₁, c₂, hopen, hbody, hclose⟩ := h
    have hfront := precedes_of_symbol hopen
    have hback := c₂.precedes_skipGap.trans (offset_of_symbol hclose).1
    have hstrung := (Stmt.CoversAll.strung hbody (hc.trans hfront)).widen hfront hback
    exact hstrung.node hc hbefore
  | ifThen loc cond onTrue =>
    obtain ⟨rfl, c₁, c₂, c₃, hword, hcond, htrue, rfl⟩ := h
    have hfront := precedes_of_keyword hword
    have hbody := (hc.trans hfront).trans (hcond.precedes.skipGap)
    have hplaced := Stmt.Covers.placed htrue hbody
    have hstrung := htrue.strung hplaced c₂.precedes_skipGap (.nil c₃.precedes_skipGap)
    exact (hcond.strung hc hfront hstrung).node hc hbefore
  | ifElse loc cond onTrue onFalse =>
    obtain ⟨rfl, c₁, c₂, c₃, c₄, hword, hcond, htrue, helse, hfalse⟩ := h
    have hfront := precedes_of_keyword hword
    have hbody := (hc.trans hfront).trans (hcond.precedes.skipGap)
    have hother := c₃.precedes_skipGap.trans (precedes_of_keyword helse)
    have hplaced := Stmt.Covers.placed htrue hbody
    have hplaced' := Stmt.Covers.placed hfalse (hbody.trans (htrue.before.1.trans hother))
    have hstrung := htrue.strung hplaced c₂.precedes_skipGap
      (hfalse.strung hplaced' hother (.nil (.refl d)))
    exact (hcond.strung hc hfront hstrung).node hc hbefore
  | whileDo loc cond body =>
    obtain ⟨rfl, c₁, c₂, hword, hcond, hbody⟩ := h
    have hfront := precedes_of_keyword hword
    have hplaced := Stmt.Covers.placed hbody ((hc.trans hfront).trans (hcond.precedes.skipGap))
    have hstrung := hbody.strung hplaced c₂.precedes_skipGap (.nil (.refl d))
    exact (hcond.strung hc hfront hstrung).node hc hbefore
  | doWhile loc body cond =>
    obtain ⟨rfl, c₁, c₂, c₃, c₄, hword, hbody, hagain, hcond, hmark⟩ := h
    have hfront := precedes_of_keyword hword
    have hagain := c₂.precedes_skipGap.trans (precedes_of_keyword hagain)
    have hback := c₄.precedes_skipGap.trans (offset_of_symbol hmark).1
    have hbehind := (hc.trans hfront).trans hbody.before.1
    have hplaced := Stmt.Covers.placed hbody (hc.trans hfront)
    have hstrung := hbody.strung hplaced hfront (hcond.strung hbehind hagain (.nil hback))
    exact hstrung.node hc hbefore

/-- Statements one behind the other. -/
theorem Stmt.CoversAll.strung {body : List (Stmt L)} {c d : Cursor}
    (h : Stmt.CoversAll S body c d) (hc : (Cursor.ofChars source).Precedes c) :
    Node.Strung source (Stmt.nodes body) c d := by
  cases body with
  | nil =>
    cases h
    exact .nil (.refl c)
  | cons s rest =>
    obtain ⟨c₁, hs, hrest⟩ := h
    have hfront := hc.trans c.precedes_skipGap
    exact .cons c.precedes_skipGap hs.before (s.node_loc.trans hs.loc_eq) (hs.placed hfront)
      (Stmt.CoversAll.strung hrest (hfront.trans hs.before.1))

end

end

end Cairn
