import Cairn.Proofs.FloatText
import Cairn.Proofs.Reading.Statement

/-!
# Cairn — parsing undoes writing

Every program in the form of the grammar has a text, and any text of it, however
its terminals are spelled and separated, is parsed as that program. The limit on
nesting stays out of the way where it is not below the length of the text, since
each level takes up a character.

## Main statements

* `Nesting.check_eq_none` — a short text does not nest too deeply.
* `Program.exists_written` — every program in form has a text.
* `Program.parse_written` — any text of a program in form is parsed as the program.
-/

namespace Cairn

-- ---------------------------------------------------------------------------
-- The nesting of short texts
-- ---------------------------------------------------------------------------

namespace Nesting

/-- At most `limit` levels are open, now and when brackets close, even if each of
the next `n` characters opens one. -/
structure Levels.Leaves (l : Levels) (limit n : Nat) : Prop where
  depth : l.depth + n ≤ limit
  opened : ∀ d ∈ l.opened, d + n ≤ limit

variable {l : Levels} {limit n : Nat}

theorem Levels.Leaves.mono (h : l.Leaves limit n) {m : Nat} (hm : m ≤ n) : l.Leaves limit m where
  depth := by
    have := h.depth
    omega
  opened := by
    intro d hd
    have := h.opened d hd
    omega

theorem Levels.Leaves.settle (h : l.Leaves limit n) : l.settle.Leaves limit n where
  depth := by
    have := h.depth
    simp only [Levels.settle]
    omega
  opened := h.opened

theorem Levels.Leaves.step (h : l.Leaves limit (n + 1)) (c : Char) : (l.step c).Leaves limit n := by
  have hdepth := h.depth
  have hopened : ∀ d ∈ l.opened, d + n ≤ limit := (h.mono (Nat.le_succ n)).opened
  unfold Levels.step
  split
  · refine ⟨by simp only [Levels.openBracket]; omega, List.forall_mem_cons.mpr ⟨by omega, hopened⟩⟩
  · split
    · refine ⟨?_, fun d hd => hopened d (List.mem_of_mem_tail hd)⟩
      cases hl : l.opened with
      | nil =>
        simp only [Levels.closeBracket, hl, List.headD_nil]
        omega
      | cons d rest =>
        have hd := hopened d (hl ▸ List.mem_cons_self)
        simp only [Levels.closeBracket, hl, List.headD_cons]
        exact hd
    · split
      · exact ⟨by simp only [Levels.addPending]; omega, hopened⟩
      · split
        · exact h.mono (Nat.le_succ n)
        · exact (h.mono (Nat.le_succ n)).settle

theorem Levels.Leaves.tail {c : Char} {cs : List Char} (h : l.Leaves limit (c :: cs).length) :
    l.Leaves limit cs.length :=
  h.mono (Nat.le_succ cs.length)

/-- The scan passes over a text in which no character can open a level too many. -/
theorem scan_eq_none {region : Region} {p : Place} {cs : List Char}
    (h : l.Leaves limit cs.length) : scan limit region l p cs = none := by
  fun_induction scan limit region l p cs with
  | case1 l p cs ih => exact ih h.tail.tail
  | case2 l p cs ih => exact ih h.tail.tail
  | case3 l p cs ih => exact ih h.tail.tail.settle
  | case4 l p cs _ _ _ ih => exact ih h.tail
  | case5 l p c cs _ _ _ _ l' hdeep =>
    have hdepth : l'.depth + cs.length ≤ limit := (h.step c).depth
    omega
  | case6 l p c cs _ _ _ _ l' _ ih => exact ih (h.step c)
  | case7 l p c cs ih => exact ih h.tail
  | case8 l p cs ih => exact ih h.tail.tail
  | case9 l p c cs _ ih => exact ih h.tail
  | case10 l p c cs ih => exact ih h.tail.tail
  | case11 l p c cs _ _ ih => exact ih h.tail.settle
  | case12 l p c cs _ _ ih => exact ih h.tail
  | case13 => rfl

theorem check_eq_none {source : List Char} (h : source.length ≤ limit) :
    check limit source = none := by
  refine scan_eq_none ⟨?_, nofun⟩
  change 0 + source.length ≤ limit
  omega

end Nesting

-- ---------------------------------------------------------------------------
-- Spellings
-- ---------------------------------------------------------------------------

/-- A decimal with places is written with digits on both sides of a point. -/
theorem exists_digits (coefficient : Nat) {places : Nat} (h : 0 < places) :
    ∃ whole fraction, IsDigits whole ∧ IsDigits fraction ∧
      Decimal.read? (whole ++ '.' :: fraction) = some ⟨coefficient, -(places : Int)⟩ := by
  obtain ⟨ds, hds⟩ : ∃ ds, ds = List.replicate (places + 1) '0' ++ digitsOf coefficient := ⟨_, rfl⟩
  have hdigits : ∀ c ∈ ds, c.isDigit := by
    intro c hc
    rw [hds] at hc
    rcases List.mem_append.mp hc with hzero | hc
    · rw [List.eq_of_mem_replicate hzero]
      decide
    · exact isDigit_of_mem_digitsOf hc
  have hlength : places < ds.length := by
    rw [hds, List.length_append, List.length_replicate]
    omega
  have hwhole : ∀ c ∈ ds.take (ds.length - places), c.isDigit := fun c hc =>
    hdigits c (List.mem_of_mem_take hc)
  have hfraction : ∀ c ∈ ds.drop (ds.length - places), c.isDigit := fun c hc =>
    hdigits c (List.mem_of_mem_drop hc)
  have hplaces : (ds.drop (ds.length - places)).length = places := by
    rw [List.length_drop]
    omega
  have hne : ds.take (ds.length - places) ≠ [] := by
    rw [← List.length_pos_iff, List.length_take]
    omega
  refine ⟨_, _, ⟨hne, hwhole⟩, ⟨?_, hfraction⟩, ?_⟩
  · rw [← List.length_pos_iff, hplaces]
    exact h
  · rw [Decimal.read?_fraction hne hwhole hfraction, List.take_append_drop, hplaces, hds,
      digitsValue_zeros_append, digitsValue_digitsOf]

/-- The exact value of a number, written out, is read as the number. -/
theorem exists_float {x : Double} (hfinite : x.isFinite) (hsign : x.negative = false) :
    ∃ whole fraction, IsDigits whole ∧ IsDigits fraction ∧
      Double.read? (whole ++ '.' :: fraction) = some x := by
  have hnear : (Double.exactDecimal x.magnitude).nearest = x.magnitude :=
    Double.nearest_exactDecimal (Nat.le_of_lt (of_decide_eq_true hfinite))
  obtain ⟨coefficient, places, hplaces, hexact⟩ : ∃ (coefficient places : Nat), 0 < places ∧
      Double.exactDecimal x.magnitude = ⟨coefficient, -(places : Int)⟩ := ⟨_, 1074, by decide, rfl⟩
  obtain ⟨whole, fraction, hwhole, hfraction, hread⟩ := exists_digits coefficient hplaces
  refine ⟨whole, fraction, hwhole, hfraction, ?_⟩
  have hvalue := Double.read?_of_decimal hread false
  rw [← hexact, hnear, ← hsign, Double.ofParts_self, hsign] at hvalue
  exact hvalue

/-- The terminal has a spelling. -/
def Terminal.IsSpellable : Terminal → Prop
  | .name x => IsIdentifier x
  | .literal value => value.IsUnsigned
  | _ => True

theorem Terminal.IsSpellable.exists_spells {t : Terminal} (h : t.IsSpellable) :
    ∃ word, t.Spells word := by
  cases t with
  | keyword k => exact ⟨_, rfl⟩
  | name x => exact ⟨x.toList, h, rfl⟩
  | literal value =>
    cases value with
    | int i =>
      have hdigits : IsDigits (digitsOf i.toInt.natAbs) :=
        ⟨digitsOf_ne_nil _, fun _ hc => isDigit_of_mem_digitsOf hc⟩
      refine ⟨digitsOf i.toInt.natAbs, hdigits, ?_⟩
      rw [digitsValue_digitsOf]
      exact Int.natAbs_of_nonneg h
    | float x =>
      obtain ⟨whole, fraction, hwhole, hfraction, hread⟩ := exists_float h.1 h.2
      exact ⟨_, whole, fraction, hwhole, hfraction, rfl, h.1, hread⟩
    | bool b => exact ⟨_, rfl⟩
    | str s => exact ⟨_, rfl⟩
  | mark s => exact ⟨_, rfl⟩

theorem exists_written {ts : List Terminal} (h : ∀ t ∈ ts, t.IsSpellable) :
    ∃ cs, Written ts cs := by
  induction ts with
  | nil => exact ⟨[], .nil⟩
  | cons t ts ih =>
    obtain ⟨ht, hts⟩ := List.forall_mem_cons.mp h
    obtain ⟨word, hword⟩ := ht.exists_spells
    obtain ⟨rest, hrest⟩ := ih hts
    cases ts with
    | nil => exact ⟨word, .one hword⟩
    | cons u ts => exact ⟨_, .cons hword ⟨' ', [], rfl, rfl, .nil⟩ hrest⟩

-- ---------------------------------------------------------------------------
-- The terminals of trees in form
-- ---------------------------------------------------------------------------

/-- All of the terminals have spellings. -/
def Spellable (ts : List Terminal) : Prop :=
  ∀ t ∈ ts, t.IsSpellable

theorem spellable_append {ts us : List Terminal} (hts : Spellable ts) (hus : Spellable us) :
    Spellable (ts ++ us) :=
  List.forall_mem_append.mpr ⟨hts, hus⟩

theorem spellable_cons {t : Terminal} {ts : List Terminal} (ht : t.IsSpellable)
    (hts : Spellable ts) : Spellable (t :: ts) :=
  List.forall_mem_cons.mpr ⟨ht, hts⟩

theorem spellable_nil : Spellable [] :=
  List.forall_mem_nil _

theorem spellable_singleton {t : Terminal} (h : t.IsSpellable) : Spellable [t] :=
  spellable_cons h spellable_nil

theorem spellable_commaSeparated {parts : List (List Terminal)}
    (h : ∀ part ∈ parts, Spellable part) : Spellable (commaSeparated parts) := by
  cases parts with
  | nil => exact spellable_nil
  | cons first rest =>
    obtain ⟨hfirst, hrest⟩ := List.forall_mem_cons.mp h
    refine spellable_append hfirst fun t ht => ?_
    obtain ⟨part, hpart, ht⟩ := List.mem_flatMap.mp ht
    have hlink : Spellable (.mark .comma :: part) := spellable_cons trivial (hrest part hpart)
    exact hlink t ht

theorem Expr.spellable {e : Expr Literal} (h : e.InForm) : Spellable e.terminals := by
  induction e with
  | literal loc value => exact spellable_singleton h
  | name loc x => exact spellable_singleton h
  | group loc inner ih =>
    exact spellable_cons trivial (spellable_append (ih h) (spellable_singleton trivial))
  | unary loc op operand ih => exact spellable_cons trivial (ih h.2)
  | binary loc op left right ihl ihr =>
    exact spellable_append (ihl h.2.2.1) (spellable_cons trivial (ihr h.2.2.2))
  | assign loc target value ih => exact spellable_cons h.1 (spellable_cons trivial (ih h.2))
  | ternary loc cond onTrue onFalse ihc iht ihf =>
    exact spellable_append (ihc h.2.1) (spellable_cons trivial
      (spellable_append (iht h.2.2.1) (spellable_cons trivial (ihf h.2.2.2))))

theorem spellable_names {names : List Ident} (h : ∀ x ∈ names, IsIdentifier x.name) :
    Spellable (namesTerminals names) := by
  refine spellable_commaSeparated fun part hpart => ?_
  obtain ⟨x, hx, rfl⟩ := List.mem_map.mp hpart
  exact spellable_singleton (h x hx)

theorem Expr.spellable_condition {e : Expr Literal} (h : e.InForm) :
    Spellable e.conditionTerminals :=
  spellable_cons trivial (spellable_append (Expr.spellable h) (spellable_singleton trivial))

theorem Ty.spellable (ty : Ty) : Spellable ty.terminals := by
  cases ty with
  | error => exact spellable_nil
  | _ => exact spellable_singleton trivial

mutual

theorem Stmt.spellable {s : Stmt Literal} (h : s.InForm) : Spellable s.terminals := by
  have hsemicolon : Spellable [.mark .semicolon] := spellable_singleton trivial
  cases s with
  | empty loc => exact hsemicolon
  | declaration loc ty names =>
    exact spellable_append ty.spellable (spellable_append (spellable_names h.2.2) hsemicolon)
  | expression loc e => exact spellable_append (Expr.spellable h) hsemicolon
  | read loc names =>
    exact spellable_cons trivial (spellable_append (spellable_names h.2) hsemicolon)
  | write loc exprs =>
    refine spellable_cons trivial (spellable_append (spellable_commaSeparated ?_) hsemicolon)
    intro part hpart
    obtain ⟨e, he, rfl⟩ := List.mem_map.mp hpart
    exact Expr.spellable (h.2 e he)
  | block loc body =>
    exact spellable_cons trivial
      (spellable_append (Stmt.spellableAll h) (spellable_singleton trivial))
  | ifThen loc cond onTrue =>
    exact spellable_cons trivial
      (spellable_append (Expr.spellable_condition h.1) (Stmt.spellable h.2))
  | ifElse loc cond onTrue onFalse =>
    exact spellable_cons trivial (spellable_append (Expr.spellable_condition h.1.1)
      (spellable_append (Stmt.spellable h.2.1) (spellable_cons trivial (Stmt.spellable h.2.2))))
  | whileDo loc cond body =>
    exact spellable_cons trivial
      (spellable_append (Expr.spellable_condition h.1) (Stmt.spellable h.2))
  | doWhile loc body cond =>
    exact spellable_cons trivial (spellable_append (Stmt.spellable h.2) (spellable_cons trivial
      (spellable_append (Expr.spellable_condition h.1) hsemicolon)))

theorem Stmt.spellableAll {body : List (Stmt Literal)} (h : Stmt.AllOf Stmt.IsShaped body) :
    Spellable (Stmt.terminalsAll body) := by
  cases body with
  | nil => exact spellable_nil
  | cons s rest => exact spellable_append (Stmt.spellable h.1) (Stmt.spellableAll h.2)

end

-- ---------------------------------------------------------------------------
-- Programs
-- ---------------------------------------------------------------------------

namespace Program

/-- The text is one of the program's: its terminals, spelled and separated in some
way. -/
def Writes (program : Program) (text : String) : Prop :=
  Written (Stmt.terminalsAll program) text.toList

theorem exists_writes {program : Program} (h : ∀ s ∈ program, s.InForm) :
    ∃ text, Writes program text := by
  obtain ⟨cs, hcs⟩ := exists_written (Stmt.spellableAll (Stmt.allOf_iff.mpr h))
  refine ⟨String.ofList cs, ?_⟩
  rw [Writes, String.toList_ofList]
  exact hcs

theorem recognize_written {program : Program} (h : ∀ s ∈ program, s.InForm) {text : String}
    (htext : Writes program text) :
    ∃ statements, recognize text.toList = some statements ∧
      List.Forall₂ (fun s a => a.ResolvesTo s) program statements := by
  have hread := Grammar.program_reads h htext.length_le
  obtain ⟨statements, d, hrun, hstatements, -⟩ :=
    hread (.ofChars text.toList) [] rfl (by rw [List.append_nil]; exact htext)
  refine ⟨statements, ?_, hstatements⟩
  rw [recognize, hrun]
  rfl

/-- **Parsing undoes writing.** A program in the form of the grammar has a text,
and each text of it is parsed as the program, locations apart. -/
theorem parse_written {program : Program} (h : ∀ s ∈ program, s.InForm) :
    (∃ text, Writes program text) ∧
      ∀ text limit, Writes program text → text.length ≤ limit →
        ∃ result, parseWithin limit text = .ok result ∧
          Stmt.bareAll result = Stmt.bareAll program := by
  refine ⟨exists_writes h, fun text limit htext hlimit => ?_⟩
  rw [← String.length_toList] at hlimit
  obtain ⟨statements, hrecognize, hstatements⟩ := recognize_written h htext
  have hdepth : 0 + (Stmt.terminalsAll program).length ≤ limit := by
    have := htext.length_le
    omega
  obtain ⟨result, hresult, hbare⟩ := Stmt.resolveAll_obtains hstatements hdepth
  refine ⟨result, ?_, hbare⟩
  simp only [parseWithin, Nesting.check_eq_none hlimit, hrecognize]
  exact hresult

/-- `if (iffy) \x7b\x7d else x = y ? -2.5 . "…" : (7);` -/
def commented : Program :=
  [.ifElse nowhere (.name nowhere "iffy") (.block nowhere [])
    (.expression nowhere (.assign nowhere ⟨"x", nowhere⟩
      (.ternary nowhere (.name nowhere "y")
        (.binary nowhere .concat
          (.unary nowhere .neg (.literal nowhere (.float ⟨0x4004000000000000⟩)))
          (.literal nowhere (.str "\"\n")))
        (.group nowhere (.literal nowhere (.int 7))))))]

/-- A text of it, with comments that hold what elsewhere would be words. -/
def commentedText : String :=
  "if /* ** / \" */( iffy ) \x7b \x7d else //* (\n x = y ? - 2.50 . \"\\\"\\n\" : ( 007 ) ;"

theorem isIdentifier_of_chars {x : String} {c : Char} {cs : List Char} (hx : x.toList = c :: cs)
    (hc : c.isAlpha ∨ c = '_') (hcs : cs.all Word.isWordChar)
    (hfree : Keyword.all.all fun k => k.text != x) : IsIdentifier x := by
  refine ⟨⟨c, cs, hx, hc⟩, ?_, ?_⟩
  · rw [hx]
    refine List.forall_mem_cons.mpr ⟨?_, fun d hd => ?_⟩
    · refine hc.imp_left fun hc => ?_
      change (c.isAlpha || c.isDigit) = true
      rw [hc, Bool.true_or]
    · simpa [Word.isWordChar] using List.all_eq_true.mp hcs d hd
  · intro k
    simpa using List.all_eq_true.mp hfree k k.mem_all

theorem commented_names : IsIdentifier "iffy" ∧ IsIdentifier "x" ∧ IsIdentifier "y" :=
  ⟨isIdentifier_of_chars rfl (.inl rfl) rfl rfl, isIdentifier_of_chars rfl (.inl rfl) rfl rfl,
    isIdentifier_of_chars rfl (.inl rfl) rfl rfl⟩

theorem commented_inForm : ∀ s ∈ commented, s.InForm := by
  obtain ⟨hiffy, hx, hy⟩ := commented_names
  refine List.forall_mem_singleton.mpr ⟨⟨hiffy, id⟩, trivial, hx, by decide, hy, ?_, ?_⟩
  · exact ⟨by decide, by decide, ⟨by decide, by decide, by decide⟩, trivial⟩
  · exact (by decide : (0 : Int) ≤ (7 : Int64).toInt)

theorem writes_commented : Writes commented commentedText := by
  obtain ⟨hiffy, hx, hy⟩ := commented_names
  have hspace : Separator [' '] := ⟨' ', [], rfl, rfl, .nil⟩
  have hblock : Separator
      (' ' :: ('/' :: '*' :: [' ', '*', '*', ' ', '/', ' ', '"', ' '] ++ ['*', '/'])) :=
    ⟨' ', _, rfl, rfl, .block (by decide +kernel) .nil⟩
  have hline : Separator (' ' :: ('/' :: '/' :: ['*', ' ', '('] ++ ['\n', ' '])) := by
    refine ⟨' ', _, rfl, rfl, .line ?_ (.blank rfl .nil)⟩
    simp [Word.isNewline]
  have hseven : (Terminal.literal (.int 7)).Spells ['0', '0', '7'] :=
    ⟨⟨by simp, List.all_eq_true.mp rfl⟩, by decide⟩
  have hfloat : (Terminal.literal (.float ⟨0x4004000000000000⟩)).Spells ['2', '.', '5', '0'] :=
    ⟨['2'], ['5', '0'], ⟨by simp, List.all_eq_true.mp rfl⟩, ⟨by simp, List.all_eq_true.mp rfl⟩, rfl,
      by decide, by decide +kernel⟩
  have hquote : (Terminal.literal (.str "\"\n")).Spells ['"', '\\', '"', '\\', 'n', '"'] := by
    change _ = (quoted "\"\n").toList
    decide +kernel
  have htext : commentedText.toList = ['i', 'f'] ++
      ((' ' :: ('/' :: '*' :: [' ', '*', '*', ' ', '/', ' ', '"', ' '] ++ ['*', '/'])) ++
      (['('] ++ ([' '] ++ (['i', 'f', 'f', 'y'] ++ ([' '] ++ ([')'] ++ ([' '] ++ (['\x7b'] ++
      ([' '] ++ (['\x7d'] ++ ([' '] ++ (['e', 'l', 's', 'e'] ++
      ((' ' :: ('/' :: '/' :: ['*', ' ', '('] ++ ['\n', ' '])) ++
      (['x'] ++ ([' '] ++ (['='] ++ ([' '] ++ (['y'] ++ ([' '] ++ (['?'] ++ ([' '] ++ (['-'] ++
      ([' '] ++ (['2', '.', '5', '0'] ++ ([' '] ++ (['.'] ++ ([' '] ++
      (['"', '\\', '"', '\\', 'n', '"'] ++ ([' '] ++ ([':'] ++ ([' '] ++ (['('] ++ ([' '] ++
      (['0', '0', '7'] ++ ([' '] ++ ([')'] ++ ([' '] ++ [';']))))))))))))))))))))))))))))))))))))) := by
    decide +kernel
  rw [Writes, htext]
  exact .cons rfl hblock <| .cons rfl hspace <| .cons ⟨hiffy, rfl⟩ hspace <| .cons rfl hspace <|
    .cons rfl hspace <| .cons rfl hspace <| .cons rfl hline <| .cons ⟨hx, rfl⟩ hspace <|
    .cons rfl hspace <| .cons ⟨hy, rfl⟩ hspace <| .cons rfl hspace <| .cons rfl hspace <|
    .cons hfloat hspace <| .cons rfl hspace <| .cons hquote hspace <| .cons rfl hspace <|
    .cons rfl hspace <| .cons hseven hspace <| .cons rfl hspace <| .one rfl

/-- The text of `commented` is parsed as `commented`. -/
theorem parse_written_commented :
    (∀ s ∈ commented, s.InForm) ∧ Writes commented commentedText ∧
      ∃ result, parseWithin 80 commentedText = .ok result ∧
        Stmt.bareAll result = Stmt.bareAll commented :=
  ⟨commented_inForm, writes_commented,
    (parse_written commented_inForm).2 commentedText 80 writes_commented (by decide)⟩

end Program

end Cairn
