import Cairn.Failure
import Cairn.Proofs.Listing
import Cairn.Proofs.Names

/-!
# Cairn — compiled code and its listing

A listing loses nothing exactly where the code is expressible. This module
shows that a compiler never leaves that set: names come from the grammar as
words, literals are finite, declared variables start at zero, and arithmetic is
emitted under one of the two number tags.

## Main statements

* `Stmt.expressible_codeFrom` — the code of a tree with such names and literals.
* `Listing.lossless`          — what can be written and read back, and by whom.
-/

namespace Cairn

-- ---------------------------------------------------------------------------
-- Names and literals
-- ---------------------------------------------------------------------------

theorem isInk_of_isAlpha {c : Char} (h : c.isAlpha) : Listing.isInk c := by
  rcases Bool.or_eq_true_iff.mp h with hupper | hlower
  · obtain ⟨hlow, hhigh⟩ : 'A'.val ≤ c.val ∧ c.val ≤ 'Z'.val := of_decide_eq_true hupper
    have hfirst : 65 ≤ c.toNat := UInt32.le_iff_toNat_le.mp hlow
    have hlast : c.toNat ≤ 90 := UInt32.le_iff_toNat_le.mp hhigh
    exact Listing.isInk_of_toNat (by omega) (by omega)
  · obtain ⟨hlow, hhigh⟩ := Bool.and_eq_true_iff.mp hlower
    have hfirst : 97 ≤ c.toNat := UInt32.le_iff_toNat_le.mp (of_decide_eq_true hlow)
    have hlast : c.toNat ≤ 122 := UInt32.le_iff_toNat_le.mp (of_decide_eq_true hhigh)
    exact Listing.isInk_of_toNat (by omega) (by omega)

theorem IsName.plain {x : String} (h : IsName x) : Plain x.toList := by
  refine Listing.plain_of_isInk h.1 fun c hc => ?_
  have hword := h.2 c hc
  simp only [Word.isWordChar, Char.isAlphanum, Bool.or_eq_true, beq_iff_eq] at hword
  rcases hword with (halpha | hdigit) | rfl
  · exact isInk_of_isAlpha halpha
  · exact Listing.isInk_of_isDigit hdigit
  · decide

theorem Instruction.pushesNumber_of_finite {value : Literal} (h : value.Finite) :
    (Instruction.push value.toValue).PushesNumber := by
  cases value with
  | float x =>
    have hfinite : x.magnitude < Double.infinity := of_decide_eq_true h
    exact decide_eq_false (by omega)
  | _ => trivial

-- ---------------------------------------------------------------------------
-- Code
-- ---------------------------------------------------------------------------

namespace Code

@[simp] theorem expressible_nil : Expressible [] := List.forall_mem_nil _

@[simp] theorem expressible_cons {i : Instruction} {code : Code} :
    Expressible (i :: code) ↔ i.Expressible ∧ code.Expressible := List.forall_mem_cons

@[simp] theorem expressible_append {code code' : Code} :
    Expressible (code ++ code') ↔ code.Expressible ∧ code'.Expressible := List.forall_mem_append

theorem expressible_flatMap {α : Type} {as : List α} {f : α → Code}
    (h : ∀ a ∈ as, (f a).Expressible) : Expressible (as.flatMap f) := by
  intro i hi
  obtain ⟨a, ha, hia⟩ := List.mem_flatMap.mp hi
  exact h a ha i hia

end Code

theorem Verdict.expressible_code {α : Type} {f : α → Code} (verdict : Verdict α)
    (h : ∀ a, (f a).Expressible) : (verdict.code f).Expressible := by
  cases verdict with
  | ok a => exact h a
  | error ds => exact Code.expressible_nil

theorem Widening.expressible_onLeft (widening : Widening) : widening.onLeft.Expressible := by
  cases widening <;> simp [onLeft]

theorem Widening.expressible_onRight (widening : Widening) : widening.onRight.Expressible := by
  cases widening <;> simp [onRight]

theorem BinaryOp.expressible_instructions (op : BinaryOp) (ty : Ty) :
    Code.Expressible (op.instructions ty) := by
  by_cases hty : ty = .float <;> cases op <;>
    simp [instructions, hty, Instruction.Binary.tag?]

section

variable {Γ : Symbols}

theorem Expr.expressible_code {e : Expr Literal} (h : e.Uses IsName Literal.Finite) (n : Nat) :
    (e.code Γ n).Expressible := by
  induction e generalizing n with
  | literal loc value =>
    exact Code.expressible_cons.mpr
      ⟨⟨trivial, Instruction.pushesNumber_of_finite h⟩, Code.expressible_nil⟩
  | name loc x =>
    refine Verdict.expressible_code _ fun _ => ?_
    exact Code.expressible_cons.mpr ⟨⟨h.plain, trivial⟩, Code.expressible_nil⟩
  | group loc inner ih => exact ih h n
  | unary loc op operand ih =>
    refine Code.expressible_append.mpr ⟨ih h n, Verdict.expressible_code _ fun _ => ?_⟩
    cases op <;> exact Code.expressible_cons.mpr ⟨⟨trivial, trivial⟩, Code.expressible_nil⟩
  | binary loc op left right ihl ihr =>
    rw [code]
    simp only [Code.expressible_append]
    refine ⟨⟨⟨ihl h.1 n, ?_⟩, ihr h.2 _⟩, ?_⟩
    · exact Verdict.expressible_code _ fun r => r.2.expressible_onLeft
    · exact Verdict.expressible_code _ fun r => Code.expressible_append.mpr
        ⟨r.2.expressible_onRight, op.expressible_instructions r.1⟩
  | assign loc target value ih =>
    refine Code.expressible_append.mpr ⟨ih h.2 n, Verdict.expressible_code _ fun r => ?_⟩
    refine Code.expressible_append.mpr ⟨r.2.expressible_onRight, ?_⟩
    simp [h.1.plain]
  | ternary loc cond onTrue onFalse ihc iht ihf =>
    simp [code, ihc h.1, iht h.2.1, ihf h.2.2]

theorem expressible_exprsCode {exprs : List (Expr Literal)}
    (h : ∀ e ∈ exprs, e.Uses IsName Literal.Finite) (n : Nat) :
    (exprsCode Γ n exprs).Expressible := by
  induction exprs generalizing n with
  | nil => exact Code.expressible_nil
  | cons e rest ih =>
    exact Code.expressible_append.mpr ⟨Expr.expressible_code (h e List.mem_cons_self) n,
      ih (fun e' he' => h e' (List.mem_cons_of_mem _ he')) _⟩

theorem expressible_zeroCode (ty : Ty) {x : Ident} (h : IsName x.name) :
    (zeroCode ty x).Expressible := by
  have hzero : Double.zero.isNaN = false := by decide
  cases ty <;> simp [zeroCode, Ty.zero?, hzero, h.plain]

theorem expressible_declareCodeFrom (ty : Ty) {names : List Ident}
    (h : ∀ x ∈ names, IsName x.name) : (declareCodeFrom ty Γ names).Expressible := by
  induction names generalizing Γ with
  | nil => exact Code.expressible_nil
  | cons x rest ih =>
    rw [declareCodeFrom]
    refine Code.expressible_append.mpr ⟨?_, ih fun y hy => h y (List.mem_cons_of_mem _ hy)⟩
    split
    · exact Code.expressible_nil
    · exact expressible_zeroCode ty (h x List.mem_cons_self)

theorem expressible_readCode {x : Ident} (h : IsName x.name) : (readCode Γ x).Expressible := by
  rw [readCode]
  split <;> simp [h.plain]

/-- The code of a tree whose names are words and whose literals are finite. -/
theorem Stmt.expressible_codeFrom {s : Stmt Literal} (h : s.Uses IsName Literal.Finite)
    (n : Nat) : (s.codeFrom Γ n).Expressible := by
  induction s using Stmt.induction generalizing Γ n with
  | empty loc => exact Code.expressible_nil
  | declaration loc ty names => exact expressible_declareCodeFrom ty h
  | expression loc e =>
    simp [codeFrom, Expr.expressible_code h]
  | read loc names => exact Code.expressible_flatMap fun x hx => expressible_readCode (h x hx)
  | write loc exprs =>
    simp [codeFrom, expressible_exprsCode h]
  | blockNil loc => exact Code.expressible_nil
  | blockCons loc s rest ihs ihrest =>
    exact Code.expressible_append.mpr ⟨ihs h.1 n, ihrest h.2 _⟩
  | ifThen loc cond onTrue ih =>
    simp [codeFrom, Expr.expressible_code h.1, ih h.2]
  | ifElse loc cond onTrue onFalse iht ihf =>
    simp [codeFrom, Expr.expressible_code h.1, iht h.2.1, ihf h.2.2]
  | whileDo loc cond body ih =>
    simp [codeFrom, Expr.expressible_code h.1, ih h.2]
  | doWhile loc body cond ih =>
    simp [codeFrom, Expr.expressible_code h.1, ih h.2]

end

/-- Code that compiles is that of a parsed program without diagnostics. -/
theorem exists_of_compileSource {source : String} {code : Code}
    (h : compileSource source = .ok code) :
    ∃ program, parse source = .ok program ∧ (Program.compile program).diagnostics = [] ∧
      code = (Program.asBlock program).codeFrom .empty 0 := by
  unfold compileSource at h
  split at h
  · cases h
  · next program hparse =>
    unfold compileProgram at h
    dsimp only at h
    split at h
    · next hclean =>
      cases h
      refine ⟨program, hparse, List.isEmpty_iff.mp hclean, ?_⟩
      rw [program.compile_eq]
      rfl
    · cases h

theorem expressible_of_compileSource {source : String} {code : Code}
    (h : compileSource source = .ok code) : code.Expressible := by
  obtain ⟨program, hparse, -, rfl⟩ := exists_of_compileSource h
  exact Stmt.expressible_codeFrom (Program.uses_of_parse hparse) 0

-- ---------------------------------------------------------------------------
-- What a listing keeps
-- ---------------------------------------------------------------------------

namespace Listing

/-- **A listing is lossless exactly on expressible code.** What is read from the
listing of a code agrees with the code, floats compared as numbers, if and only
if the code is expressible, and is then the code itself. All compiled code is
expressible. Code that was read from a listing is, except that it may push what
is not a number. -/
theorem lossless :
    (∀ code, (∃ code', read (write code) = .ok code' ∧ Code.agrees code' code) ↔
      code.Expressible) ∧
    (∀ code : Code, code.Expressible → read (write code) = .ok code) ∧
    (∀ source code, compileSource source = .ok code → code.Expressible) ∧
    ∀ text code, read text = .ok code → ∀ i ∈ code, i.Sayable :=
  ⟨agrees_iff, fun _ => read_write, fun _ _ => expressible_of_compileSource,
    fun _ _ => sayable_of_read⟩

/-- A program whose listing needs escapes and a number of many digits. -/
def escaped : String :=
  "string s_1; s_1 = \"a \\\"b\\\"\\n\"; write s_1, 1 / 0.1;"

def escapedCode : Code :=
  [.push (.str ""), .save "s_1", .push (.str "a \"b\"\n"), .save "s_1", .load "s_1", .pop,
    .load "s_1", .push (.int 1), .unary .itof, .push (.float ⟨0x3fb999999999999a⟩),
    .binary (.div .float), .print 2]

theorem lossless_escaped :
    compileSource escaped = .ok escapedCode ∧ escapedCode.Expressible ∧
      read (write escapedCode) = .ok escapedCode ∧ (∀ i ∈ escapedCode, i.Sayable) ∧
      ¬ ∃ code', read (write [.push (.float (.nan false))]) = .ok code' ∧
        Code.agrees code' [.push (.float (.nan false))] := by
  obtain ⟨hiff, hwrite, hcompile, hread⟩ := lossless
  have hsource : compileSource escaped = .ok escapedCode := by
    have h : (compileSource escaped).toOption = some escapedCode := by decide +kernel
    cases hresult : compileSource escaped with
    | error failure =>
      rw [hresult] at h
      cases h
    | ok code =>
      rw [hresult] at h
      cases h
      rfl
  have hcode := hcompile escaped escapedCode hsource
  have htext := hwrite escapedCode hcode
  refine ⟨hsource, hcode, htext, hread _ _ htext, fun h => ?_⟩
  have hnan : (Double.nan false).isNaN = false := ((hiff _).mp h _ List.mem_cons_self).2
  exact absurd hnan (by decide)

end Listing

end Cairn
