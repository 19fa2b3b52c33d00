import Cairn.Proofs.Offsets
import Cairn.Proofs.RoundTrip
import Cairn.Proofs.Wire

/-!
# Cairn — how large code is

The code of a construct is bounded by the text that the construct covers: it has
at most two instructions for each byte, and none of its texts is longer than the
text in front of us. So the code of a source that is held in memory can be
counted in 64 bits, which is what its binary form needs.

## Main statements

* `Expr.fits_code`, `Stmt.fits_codeFrom` — code and the text it was compiled from.
* `sized_of_compileSource`               — compiled code has a binary form.
-/

namespace Cairn

-- ---------------------------------------------------------------------------
-- Bounds on code
-- ---------------------------------------------------------------------------

namespace Code

/-- The code has at most `k` instructions, and its texts at most `k` bytes each. -/
structure Fits (code : Code) (k : Nat) : Prop where
  length : code.length ≤ k
  texts : ∀ i ∈ code, ∀ s ∈ i.text?, (utf8Bytes s).length ≤ k

theorem Fits.mono {code : Code} {j k : Nat} (h : code.Fits j) (hjk : j ≤ k) : code.Fits k where
  length := Nat.le_trans h.length hjk
  texts := fun i hi s hs => Nat.le_trans (h.texts i hi s hs) hjk

theorem fits_nil (k : Nat) : Fits [] k where
  length := Nat.zero_le k
  texts := fun _ hi => by cases hi

theorem Fits.append {c d : Code} {j k : Nat} (hc : c.Fits j) (hd : d.Fits k) :
    Fits (c ++ d) (j + k) where
  length := by
    have hj := hc.length
    have hk := hd.length
    rw [List.length_append]
    omega
  texts := by
    intro i hi s hs
    rcases List.mem_append.mp hi with hi | hi
    · exact Nat.le_trans (hc.texts i hi s hs) (Nat.le_add_right j k)
    · exact Nat.le_trans (hd.texts i hi s hs) (Nat.le_add_left k j)

/-- Code without texts. -/
theorem fits_plain {code : Code} (h : ∀ i ∈ code, i.text? = none) : code.Fits code.length where
  length := Nat.le_refl _
  texts := by
    intro i hi s hs
    rw [h i hi] at hs
    cases hs

/-- A few instructions about one name. -/
theorem fits_named {code : Code} {x : String} {k : Nat} (hlength : code.length ≤ k)
    (hname : (utf8Bytes x).length ≤ k)
    (h : ∀ i ∈ code, ∀ s ∈ i.text?, s = x ∨ s = "") : code.Fits k where
  length := hlength
  texts := by
    intro i hi s hs
    rcases h i hi s hs with rfl | rfl
    · exact hname
    · exact Nat.zero_le k

end Code

open Code

theorem Verdict.fits_code {α : Type} (v : Verdict α) {f : α → Code} {k : Nat}
    (h : ∀ a, (f a).Fits k) : (v.code f).Fits k := by
  cases v with
  | ok a => exact h a
  | error ds => exact fits_nil k

-- ---------------------------------------------------------------------------
-- Expressions
-- ---------------------------------------------------------------------------

theorem text?_onLeft (w : Widening) : ∀ i ∈ w.onLeft, i.text? = none := by
  cases w <;> simp [Widening.onLeft, Instruction.text?]

theorem text?_onRight (w : Widening) : ∀ i ∈ w.onRight, i.text? = none := by
  cases w <;> simp [Widening.onRight, Instruction.text?]

theorem text?_instructions (op : BinaryOp) (ty : Ty) : ∀ i ∈ op.instructions ty, i.text? = none := by
  cases op <;> simp [BinaryOp.instructions, Instruction.text?]

/-- An operator and the one conversion that it may need are paid for by its text. -/
theorem BinaryOp.length_instructions_le (op : BinaryOp) (ty : Ty) (w : Widening) :
    w.onLeft.length + (w.onRight ++ op.instructions ty).length ≤ 2 * utf8Length op.text.toList := by
  have hop : (op.instructions ty).length + 1 ≤ 2 * utf8Length op.text.toList := by
    cases op <;> exact Nat.le_of_ble_eq_true rfl
  have hw : w.onLeft.length + w.onRight.length ≤ 1 := by
    cases w <;> decide
  rw [List.length_append]
  omega

theorem Lexeme.eq_str_of_read? {lexeme : Lexeme} {text : String}
    (h : lexeme.read? = some (.str text)) : lexeme = .str text := by
  cases lexeme with
  | int digits =>
    obtain ⟨_, -, heq⟩ := Option.map_eq_some_iff.mp h
    cases heq
  | float digits =>
    rw [Lexeme.read?] at h
    split at h
    · split at h <;> cases h
    · cases h
  | bool value => cases h
  | str text' =>
    cases h
    rfl

theorem Literal.fits_push {value : Literal} {lexeme : Lexeme} (hvalue : value.IsValueOf lexeme)
    {loc : Location} {c d : Cursor} (h : lexeme.Covers loc c d) :
    Fits [.push value.toValue] (2 * (d.offset - c.offset)) := by
  have hlt : c.offset < d.offset := (Grammar.anyLiteral_advances c _ d h).2
  refine ⟨by simp; omega, ?_⟩
  simp only [List.mem_singleton, forall_eq]
  intro s hs
  cases value with
  | str text =>
    cases Lexeme.eq_str_of_read? hvalue
    have hle := h.text_le
    cases hs
    omega
  | int i => cases hs
  | float x => cases hs
  | bool b => cases hs

/-- The brackets around a construct pay for four instructions. -/
theorem Enclosed.fits {left right : String} {R : Cursor → Cursor → Prop} {c d : Cursor}
    {code : Code} (h : Enclosed left right R c d) (hleft : left.toList ≠ [])
    (hright : right.toList ≠ [])
    (hR : ∀ c d, R c d → c.Precedes d ∧ code.Fits (2 * (d.offset - c.offset))) :
    ∃ k, code.Fits k ∧ k + 4 ≤ 2 * (d.offset - c.offset) := by
  obtain ⟨c₁, c₂, hopen, hinner, hclose⟩ := h
  obtain ⟨hprecedes, hfits⟩ := hR _ _ hinner
  have hlt := Grammar.lt_of_symbol hopen hleft
  have hgap := c₁.le_skipGap
  have hle := hprecedes.offset_le
  have hgap' := c₂.le_skipGap
  have hlt' := Grammar.lt_of_symbol hclose hright
  exact ⟨_, hfits, by omega⟩

/-- **The code of an expression** is bounded by the text that the expression
covers. -/
theorem Expr.fits_code {e : Expr Literal} {c d : Cursor} (h : e.Covers Literal.IsValueOf c d)
    (Γ : Symbols) (n : Nat) : (e.code Γ n).Fits (2 * (d.offset - c.offset)) := by
  induction e generalizing c d n with
  | literal loc value =>
    obtain ⟨lexeme, hvalue, hcovers⟩ := h
    exact Literal.fits_push hvalue hcovers
  | name loc x =>
    obtain ⟨-, hlt, hoffset⟩ := Ident.Covers.offset h
    refine Verdict.fits_code _ fun _ => fits_named (x := x) ?_ ?_ ?_
    · simp
      omega
    · simp only at hoffset
      omega
    · simp [Instruction.text?]
  | group loc inner ih =>
    obtain ⟨k, hfits, hk⟩ := h.2.fits (by decide) (by decide) fun _ _ hinner =>
      ⟨hinner.before.1, ih hinner n⟩
    exact hfits.mono (by omega)
  | unary loc op operand ih =>
    obtain ⟨-, c₁, hop, hoperand⟩ := h
    obtain ⟨-, hlt⟩ := (Grammar.unaryOp_advances op).passes hop
    have hgap := c₁.le_skipGap
    have hend := hoperand.before.2
    have hsign : ∀ v : Verdict Ty, (v.code fun _ => [op.instruction]).Fits 1 := by
      refine fun v => Verdict.fits_code v fun _ => fits_plain ?_
      cases op <;> simp [UnaryOp.instruction, Instruction.text?]
    exact ((ih hoperand n).append (hsign _)).mono (by omega)
  | binary loc op left right ihl ihr =>
    obtain ⟨-, c₁, c₂, hleft, hop, hright⟩ := h
    obtain ⟨-, hoffset⟩ := Grammar.offset_of_binaryOp hop
    have hgap := c₁.le_skipGap
    have hgap' := c₂.le_skipGap
    have hstart := hleft.before.2
    have hend := hright.before.2
    rw [code]
    generalize op.judge loc (left.ty Γ) (right.ty Γ) = verdict
    have hmiddle : ∃ j k, j + k ≤ 2 * utf8Length op.text.toList ∧
        (verdict.code fun r => r.2.onLeft).Fits j ∧
        (verdict.code fun r => r.2.onRight ++ op.instructions r.1).Fits k := by
      cases verdict with
      | error ds => exact ⟨0, 0, Nat.zero_le _, fits_nil 0, fits_nil 0⟩
      | ok r =>
        refine ⟨_, _, op.length_instructions_le r.1 r.2, fits_plain (text?_onLeft r.2), ?_⟩
        exact fits_plain (List.forall_mem_append.mpr
          ⟨text?_onRight r.2, text?_instructions op r.1⟩)
    obtain ⟨j, k, hjk, hon, hoff⟩ := hmiddle
    exact (((ihl hleft n).append hon).append (ihr hright _)).append hoff |>.mono (by omega)
  | assign loc target value ih =>
    obtain ⟨-, c₁, c₂, c₃, htarget, hop, hvalue, rfl⟩ := h
    obtain ⟨-, hname, hoffset⟩ := htarget.offset
    obtain ⟨-, hlt⟩ := Grammar.assignOp_advances.passes hop
    have hgap := c₁.le_skipGap
    have hgap' := c₂.le_skipGap
    have hgap'' := c₃.le_skipGap
    have hend := hvalue.before.2
    have hsave : ∀ v : Verdict (Ty × Widening),
        (v.code fun r => r.2.onRight ++ [.save target.name, .load target.name]).Fits
          (2 * (c₂.offset - c.offset)) := by
      refine fun v => Verdict.fits_code v fun r => ?_
      obtain ⟨_, w⟩ := r
      refine fits_named (x := target.name) ?_ (by omega) ?_
      · cases w <;> simp [Widening.onRight] <;> omega
      · cases w <;> simp [Widening.onRight, Instruction.text?]
    exact ((ih hvalue n).append (hsave _)).mono (by omega)
  | ternary loc cond onTrue onFalse ihc iht ihf =>
    obtain ⟨-, c₁, c₂, c₃, c₄, c₅, hcond, hmark, htrue, hcolon, hfalse, rfl⟩ := h
    have hfirst := hcond.before.2
    have hgap₁ := c₁.le_skipGap
    have hmark := Grammar.lt_of_symbol hmark (by decide)
    have hgap₂ := c₂.le_skipGap
    have hsecond := htrue.before.2
    have hgap₃ := c₃.le_skipGap
    have hcolon := Grammar.lt_of_symbol hcolon (by decide)
    have hgap₄ := c₄.le_skipGap
    have hthird := hfalse.before.2
    have hgap₅ := c₅.le_skipGap
    have hjumps : ∀ a b c d : UInt32, Fits [.fjmp a] 1 ∧ Fits [.jmp b, .label c] 2 ∧
        Fits [.label d] 1 := by
      refine fun a b c d => ⟨fits_plain ?_, fits_plain ?_, fits_plain ?_⟩ <;>
        simp [Instruction.text?]
    obtain ⟨h₁, h₂, h₃⟩ := hjumps (.ofNat n) (.ofNat (n + 1)) (.ofNat n) (.ofNat (n + 1))
    exact ((((((ihc hcond _).append h₁).append (iht htrue _)).append h₂).append
      (ihf hfalse _)).append h₃).mono (by omega)

-- ---------------------------------------------------------------------------
-- Statements
-- ---------------------------------------------------------------------------

/-- The code fits the text from the byte `i` up to the byte `j`. -/
def Code.FitsBetween (code : Code) (i j : Nat) : Prop :=
  i ≤ j ∧ code.Fits (2 * (j - i))

theorem Code.FitsBetween.append {c d : Code} {i j k l : Nat} (hc : c.FitsBetween i j)
    (hjk : j ≤ k) (hd : d.FitsBetween k l) : FitsBetween (c ++ d) i l := by
  obtain ⟨hij, hfits⟩ := hc
  obtain ⟨hkl, hfits'⟩ := hd
  exact ⟨by omega, (hfits.append hfits').mono (by omega)⟩

/-- A name pays for two instructions about it. -/
theorem Ident.Covers.fits {x : Ident} {c d : Cursor} (h : x.Covers c d) {code : Code}
    (hlength : code.length ≤ 2) (htext : ∀ i ∈ code, ∀ s ∈ i.text?, s = x.name ∨ s = "") :
    code.FitsBetween c.offset d.offset := by
  obtain ⟨-, hlt, hoffset⟩ := h.offset
  exact ⟨by omega, fits_named (x := x.name) (by omega) (by omega) htext⟩

theorem text?_zeroCode (ty : Ty) (x : Ident) :
    ∀ i ∈ zeroCode ty x, ∀ s ∈ i.text?, s = x.name ∨ s = "" := by
  cases ty <;> simp [zeroCode, Ty.zero?, Instruction.text?]

theorem fits_declareCodeFrom {names : List Ident} {c d : Cursor}
    (h : Listed Ident.Covers names c d) (ty : Ty) (Γ : Symbols) :
    (declareCodeFrom ty Γ names).FitsBetween c.offset d.offset := by
  refine h.collected (fun _ => rfl) (fun _ _ _ => rfl) FitsBetween.append ?_ Γ
  intro Δ x _ c d hx
  split
  · exact hx.fits (Nat.zero_le 2) (by simp)
  · refine hx.fits ?_ (text?_zeroCode ty x)
    cases ty <;> simp [zeroCode, Ty.zero?]

theorem fits_readCode {names : List Ident} {c d : Cursor} (h : Listed Ident.Covers names c d)
    (Γ : Symbols) : Code.FitsBetween (names.flatMap (readCode Γ)) c.offset d.offset := by
  refine h.collected (u := fun Γ _ => Γ) (fun _ => rfl) (fun _ _ _ => List.flatMap_cons)
    FitsBetween.append ?_ Γ
  intro Δ x _ c d hx
  rw [readCode]
  split
  · exact hx.fits (Nat.le_refl 2) (by simp [Instruction.text?])
  · exact hx.fits (Nat.zero_le 2) (by simp)

theorem fits_exprsCode {exprs : List (Expr Literal)} {c d : Cursor}
    (h : Listed (Expr.Covers Literal.IsValueOf) exprs c d) (Γ : Symbols) (n : Nat) :
    (exprsCode Γ n exprs).FitsBetween c.offset d.offset := by
  refine h.collected (fun _ => rfl) (fun _ _ _ => rfl) FitsBetween.append ?_ n
  intro m e _ c d he
  exact ⟨Nat.le_of_lt he.before.2, Expr.fits_code he Γ m⟩

/-- A condition in its parentheses, with room for four instructions. -/
theorem Expr.fits_condition {cond : Expr Literal} {c d : Cursor}
    (h : Enclosed "(" ")" (cond.Covers Literal.IsValueOf) c d) (Γ : Symbols) (n : Nat) :
    ∃ k, (cond.code Γ n).Fits k ∧ k + 4 ≤ 2 * (d.offset - c.offset) :=
  h.fits (by decide) (by decide) fun _ _ hcond => ⟨hcond.before.1, Expr.fits_code hcond Γ n⟩

mutual

/-- **The code of a statement** is bounded by the text that the statement
covers. -/
theorem Stmt.fits_codeFrom {s : Stmt Literal} {c d : Cursor}
    (h : s.Covers Literal.IsValueOf c d) (Γ : Symbols) (n : Nat) :
    (s.codeFrom Γ n).FitsBetween c.offset d.offset := by
  refine ⟨Nat.le_of_lt h.before.2, ?_⟩
  have hplain : ∀ {code : Code} (k : Nat), (∀ i ∈ code, i.text? = none) → code.length ≤ k →
      code.Fits k := fun k htext hlength => (fits_plain htext).mono hlength
  cases s with
  | empty loc => exact fits_nil _
  | declaration loc ty names =>
    obtain ⟨-, c₁, c₂, hty, hlisted, hmark⟩ := h
    obtain ⟨hle, hfits⟩ := fits_declareCodeFrom hlisted ty Γ
    have hstart := (Grammar.typeName_advances _ _ _ hty).2
    have hgap := c₁.le_skipGap
    have hgap' := c₂.le_skipGap
    have hend := Grammar.lt_of_symbol hmark (by decide)
    exact hfits.mono (by omega)
  | expression loc e =>
    obtain ⟨-, c₁, he, hmark⟩ := h
    have hle := he.before.2
    have hgap := c₁.le_skipGap
    have hend := Grammar.lt_of_symbol hmark (by decide)
    exact ((Expr.fits_code he Γ n).append (hplain 1 (by simp [Instruction.text?]) (by simp))).mono
      (by omega)
  | read loc names =>
    obtain ⟨-, c₁, c₂, hword, hlisted, hmark⟩ := h
    obtain ⟨hle, hfits⟩ := fits_readCode hlisted Γ
    have hstart := ((Grammar.keyword_advances _).passes hword).2
    have hgap := c₁.le_skipGap
    have hgap' := c₂.le_skipGap
    have hend := Grammar.lt_of_symbol hmark (by decide)
    exact hfits.mono (by omega)
  | write loc exprs =>
    obtain ⟨-, c₁, c₂, hword, hlisted, hmark⟩ := h
    obtain ⟨hle, hfits⟩ := fits_exprsCode hlisted Γ n
    have hstart := ((Grammar.keyword_advances _).passes hword).2
    have hgap := c₁.le_skipGap
    have hgap' := c₂.le_skipGap
    have hend := Grammar.lt_of_symbol hmark (by decide)
    exact (hfits.append (hplain 1 (by simp [Instruction.text?]) (by simp))).mono (by omega)
  | block loc body =>
    have hbody : ∀ c d, CoversAll Literal.IsValueOf body c d →
        c.Precedes d ∧ (codeFromAll Γ n body).Fits (2 * (d.offset - c.offset)) :=
      fun _ _ hbody => ⟨hbody.precedes, (Stmt.fits_codeFromAll hbody Γ n).2⟩
    obtain ⟨k, hfits, hk⟩ := h.2.fits (by decide) (by decide) hbody
    exact hfits.mono (by omega)
  | ifThen loc cond onTrue =>
    obtain ⟨-, c₁, c₂, c₃, hword, hcond, htrue, rfl⟩ := h
    obtain ⟨k, hfits, hk⟩ := Expr.fits_condition hcond Γ (n + 1)
    obtain ⟨hle, hbody⟩ := Stmt.fits_codeFrom htrue Γ (n + 1 + cond.labelCount)
    have hstart := ((Grammar.keyword_advances _).passes hword).2
    have hgap₁ := c₁.le_skipGap
    have hgap₂ := c₂.le_skipGap
    have hgap₃ := c₃.le_skipGap
    exact (((hfits.append (hplain 1 (by simp [Instruction.text?]) (by simp))).append hbody).append
      (hplain 1 (by simp [Instruction.text?]) (by simp))).mono (by omega)
  | ifElse loc cond onTrue onFalse =>
    obtain ⟨-, c₁, c₂, c₃, c₄, hword, hcond, htrue, helse, hfalse⟩ := h
    obtain ⟨k, hfits, hk⟩ := Expr.fits_condition hcond Γ (n + 2)
    obtain ⟨hle, hbody⟩ := Stmt.fits_codeFrom htrue Γ (n + 2 + cond.labelCount)
    obtain ⟨hle', hother⟩ := Stmt.fits_codeFrom hfalse (onTrue.symbolsAfter Γ)
      (n + 2 + cond.labelCount + onTrue.labelCount)
    have hstart := ((Grammar.keyword_advances _).passes hword).2
    have hgap₁ := c₁.le_skipGap
    have hgap₂ := c₂.le_skipGap
    have hgap₃ := c₃.le_skipGap
    have helse := ((Grammar.keyword_advances _).passes helse).2
    have hgap₄ := c₄.le_skipGap
    exact (((((hfits.append (hplain 1 (by simp [Instruction.text?]) (by simp))).append
      hbody).append (hplain 2 (by simp [Instruction.text?]) (by simp))).append hother).append
      (hplain 1 (by simp [Instruction.text?]) (by simp))).mono (by omega)
  | whileDo loc cond body =>
    obtain ⟨-, c₁, c₂, hword, hcond, hbody⟩ := h
    obtain ⟨k, hfits, hk⟩ := Expr.fits_condition hcond Γ (n + 2)
    obtain ⟨hle, hbody⟩ := Stmt.fits_codeFrom hbody Γ (n + 2 + cond.labelCount)
    have hstart := ((Grammar.keyword_advances _).passes hword).2
    have hgap₁ := c₁.le_skipGap
    have hgap₂ := c₂.le_skipGap
    exact (((((hplain 1 (by simp [Instruction.text?]) (by simp)).append hfits).append
      (hplain 1 (by simp [Instruction.text?]) (by simp))).append hbody).append
      (hplain 2 (by simp [Instruction.text?]) (by simp))).mono (by omega)
  | doWhile loc body cond =>
    obtain ⟨-, c₁, c₂, c₃, c₄, hword, hbody, hagain, hcond, hmark⟩ := h
    obtain ⟨hle, hbody⟩ := Stmt.fits_codeFrom hbody Γ (n + 2)
    obtain ⟨k, hfits, hk⟩ := Expr.fits_condition hcond (body.symbolsAfter Γ)
      (n + 2 + body.labelCount)
    have hstart := ((Grammar.keyword_advances _).passes hword).2
    have hgap₁ := c₁.le_skipGap
    have hgap₂ := c₂.le_skipGap
    have hagain := ((Grammar.keyword_advances _).passes hagain).2
    have hgap₃ := c₃.le_skipGap
    have hgap₄ := c₄.le_skipGap
    have hend := Grammar.lt_of_symbol hmark (by decide)
    exact ((((hplain 1 (by simp [Instruction.text?]) (by simp)).append hbody).append hfits).append
      (hplain 3 (by simp [Instruction.text?]) (by simp))).mono (by omega)

theorem Stmt.fits_codeFromAll {body : List (Stmt Literal)} {c d : Cursor}
    (h : Stmt.CoversAll Literal.IsValueOf body c d) (Γ : Symbols) (n : Nat) :
    (Stmt.codeFromAll Γ n body).FitsBetween c.offset d.offset := by
  cases body with
  | nil => exact ⟨h.precedes.offset_le, fits_nil _⟩
  | cons s rest =>
    obtain ⟨c₁, hs, hrest⟩ := h
    have hgap := c.le_skipGap
    have hfirst := Stmt.fits_codeFrom hs Γ n
    have hmore := Stmt.fits_codeFromAll hrest (s.symbolsAfter Γ) (n + s.labelCount)
    obtain ⟨hle, hfits⟩ := hfirst.append (Nat.le_refl _) hmore
    exact ⟨by omega, hfits.mono (by omega)⟩

end

-- ---------------------------------------------------------------------------
-- Programs
-- ---------------------------------------------------------------------------

/-- **Compiled code has a binary form** if the source does, that is, if its size
has 63 bits. -/
theorem sized_of_compileSource {source : String} {code : Code}
    (h : compileSource source = .ok code) (hsize : 2 * (utf8Bytes source).length < UInt64.size) :
    code.Sized := by
  obtain ⟨program, hparse, -, rfl⟩ := exists_of_compileSource h
  obtain ⟨c, d, hcovers, hend⟩ := Program.offset_le_of_parse hparse
  have hfits : ((Program.asBlock program).codeFrom .empty 0).Fits (2 * (d.offset - c.offset)) :=
    (Stmt.fits_codeFromAll hcovers .empty 0).2
  have hsized := hfits.mono (by omega : _ ≤ 2 * (utf8Bytes source).length)
  exact ⟨Nat.lt_of_le_of_lt hsized.length hsize,
    fun i hi s hs => Nat.lt_of_le_of_lt (hsized.texts i hi s hs) hsize⟩

end Cairn
