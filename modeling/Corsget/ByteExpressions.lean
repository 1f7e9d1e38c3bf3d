import Corsget.Library.Text
import Corsget.Library.Validation
import Mathlib.Algebra.BigOperators.Group.List.Basic
import Mathlib.Algebra.Order.BigOperators.Group.List

/-!
# Byte expressions

`eval_byte_expr` of `config.rs` evaluates a product such as `1024 * 1024 * 4096` from left
to right and checks after each factor that the running product fits into 64 bits.

So an expression has a value exactly when every product of leading factors fits
(`byteExpr_eq_ok_iff`).  Among positive factors the running product never falls again and
the whole product decides, in any order.  A zero behind an overflow comes too late
(`zero_after_overflow`).
-/

namespace Corsget

open Text Validation

/-- `u64::checked_mul`. -/
def checkedMul (a b : ℕ) : Option ℕ := if a * b < 2 ^ 64 then some (a * b) else none

/-- One turn of the loop of `eval_byte_expr`. -/
def evalBytePart (expr : Str) (result : ℕ) (part : Str) : Except Str ℕ :=
  let trimmed := trim part
  match parseU64 trimmed with
  | none =>
      .error ("invalid byte expression `".toList ++ expr ++ "`: `".toList ++ trimmed ++
        "` is not a number".toList)
  | some n =>
      match checkedMul result n with
      | none => .error ("byte expression `".toList ++ expr ++ "` overflows u64".toList)
      | some result => .ok result

/-- `eval_byte_expr`. -/
def evalByteExpr (expr : Str) : Except Str ℕ := (expr.splitOn '*').foldlM (evalBytePart expr) 1

/-- The factors of an expression: what its parts read as. -/
def HasFactors (parts : List Str) (factors : List ℕ) : Prop :=
  List.Forall₂ (fun part n => parseU64 (trim part) = some n) parts factors

instance (parts : List Str) (factors : List ℕ) : Decidable (HasFactors parts factors) :=
  inferInstanceAs (Decidable (List.Forall₂ (fun part n => parseU64 (trim part) = some n) _ _))

/-- Every product of leading factors, multiplied by `result`, fits into 64 bits. -/
def LeadingFit (result : ℕ) (factors : List ℕ) : Prop :=
  ∀ leading, leading <+: factors → result * leading.prod < 2 ^ 64

/-- **One turn** reads a factor and multiplies, when the product fits. -/
theorem evalBytePart_eq_ok_iff {expr part : Str} {result next : ℕ} :
    evalBytePart expr result part = .ok next ↔
      ∃ n, parseU64 (trim part) = some n ∧ result * n < 2 ^ 64 ∧ result * n = next := by
  unfold evalBytePart checkedMul
  dsimp only
  cases hparse : parseU64 (trim part) with
  | none =>
      constructor
      · intro h
        cases h
      · rintro ⟨n, hn, -⟩
        cases hn
  | some n =>
      dsimp only
      by_cases hfit : result * n < 2 ^ 64
      · rw [if_pos hfit]
        constructor
        · intro h
          exact ⟨n, rfl, hfit, Except.ok.inj h⟩
        · rintro ⟨m, hm, -, rfl⟩
          obtain rfl := Option.some.inj hm
          rfl
      · rw [if_neg hfit]
        constructor
        · intro h
          cases h
        · rintro ⟨m, hm, hlt, -⟩
          obtain rfl := Option.some.inj hm
          exact absurd hlt hfit

theorem leadingFit_cons_iff {result n : ℕ} {factors : List ℕ} :
    LeadingFit result (n :: factors) ↔ result < 2 ^ 64 ∧ LeadingFit (result * n) factors := by
  constructor
  · intro h
    refine ⟨by simpa using h [] List.nil_prefix, fun leading hleading => ?_⟩
    have hcons := h (n :: leading) (List.cons_prefix_cons.mpr ⟨rfl, hleading⟩)
    rw [List.prod_cons, ← mul_assoc] at hcons
    exact hcons
  · rintro ⟨hresult, h⟩ leading hleading
    rcases List.prefix_cons_iff.mp hleading with rfl | ⟨rest, rfl, hrest⟩
    · simpa using hresult
    · rw [List.prod_cons, ← mul_assoc]
      exact h rest hrest

/-- **The loop**, from any running product that fits. -/
theorem foldlM_evalBytePart_eq_ok_iff {expr : Str} {parts : List Str} {result value : ℕ}
    (hresult : result < 2 ^ 64) :
    parts.foldlM (evalBytePart expr) result = .ok value ↔
      ∃ factors, HasFactors parts factors ∧ LeadingFit result factors ∧
        result * factors.prod = value := by
  induction parts generalizing result with
  | nil =>
      constructor
      · intro h
        refine ⟨[], .nil, fun leading hleading => ?_, ?_⟩
        · rw [List.prefix_nil.mp hleading]
          simpa using hresult
        · rw [List.prod_nil, mul_one]
          exact Except.ok.inj h
      · rintro ⟨factors, hfactors, -, rfl⟩
        cases hfactors
        rw [List.prod_nil, mul_one]
        rfl
  | cons part parts ih =>
      rw [List.foldlM_cons]
      change (evalBytePart expr result part).bind _ = _ ↔ _
      rw [bind_eq_ok_iff]
      constructor
      · rintro ⟨next, hnext, h⟩
        obtain ⟨n, hparse, hfit, rfl⟩ := evalBytePart_eq_ok_iff.mp hnext
        obtain ⟨factors, hfactors, hleading, rfl⟩ := (ih hfit).mp h
        refine ⟨n :: factors, hfactors.cons hparse, leadingFit_cons_iff.mpr ⟨hresult, hleading⟩, ?_⟩
        rw [List.prod_cons, ← mul_assoc]
      · rintro ⟨factors, hfactors, hleading, rfl⟩
        cases hfactors with
        | cons hparse hrest =>
            obtain ⟨-, hleading⟩ := leadingFit_cons_iff.mp hleading
            have hfit := hleading [] List.nil_prefix
            rw [List.prod_nil, mul_one] at hfit
            refine ⟨_, evalBytePart_eq_ok_iff.mpr ⟨_, hparse, hfit, rfl⟩, (ih hfit).mpr ?_⟩
            refine ⟨_, hrest, hleading, ?_⟩
            rw [List.prod_cons, ← mul_assoc]

/-- Among positive factors the whole product is the largest of the leading ones. -/
theorem leadingFit_one_iff {factors : List ℕ} (hpos : ∀ n ∈ factors, 0 < n) :
    LeadingFit 1 factors ↔ factors.prod < 2 ^ 64 := by
  constructor
  · intro h
    have hall := h factors List.prefix_rfl
    rw [one_mul] at hall
    exact hall
  · rintro h leading ⟨rest, rfl⟩
    rw [one_mul]
    have hrest : 1 ≤ rest.prod :=
      List.one_le_prod_of_one_le fun n hn => hpos n (List.mem_append_right _ hn)
    rw [List.prod_append] at h
    exact lt_of_le_of_lt (Nat.le_mul_of_pos_right _ hrest) h

/-- The parts of an expression read as one list of factors at most. -/
theorem HasFactors.unique {parts : List Str} {factors factors' : List ℕ}
    (h : HasFactors parts factors) (h' : HasFactors parts factors') : factors = factors' := by
  induction h generalizing factors' with
  | nil =>
      cases h'
      rfl
  | cons hparse _ ih =>
      cases h' with
      | cons hparse' hrest' =>
          rw [Option.some.inj (hparse.symm.trans hparse'), ih hrest']

/-- An expression of positive factors has a value when their product fits. -/
theorem evalByteExpr_eq_ok_iff_of_pos {expr : Str} {factors : List ℕ}
    (hfactors : HasFactors (expr.splitOn '*') factors) (hpos : ∀ n ∈ factors, 0 < n) (value : ℕ) :
    evalByteExpr expr = .ok value ↔ factors.prod = value ∧ value < 2 ^ 64 := by
  unfold evalByteExpr
  rw [foldlM_evalBytePart_eq_ok_iff (by decide)]
  constructor
  · rintro ⟨factors', hfactors', hleading, hvalue⟩
    obtain rfl := hfactors.unique hfactors'
    rw [one_mul] at hvalue
    exact ⟨hvalue, hvalue ▸ (leadingFit_one_iff hpos).mp hleading⟩
  · rintro ⟨rfl, hfit⟩
    exact ⟨factors, hfactors, (leadingFit_one_iff hpos).mpr hfit, one_mul _⟩

/-- **Byte expressions.**  An expression has a value exactly when each of its parts,
trimmed, reads as a 64-bit number and every product of leading factors fits into 64 bits;
the value is the product.  When the factors are positive it is enough that their product
fits, and their order makes no difference. -/
theorem byteExpr_eq_ok_iff (expr : Str) :
    (∀ value, evalByteExpr expr = .ok value ↔
      ∃ factors, HasFactors (expr.splitOn '*') factors ∧
        (∀ leading, leading <+: factors → leading.prod < 2 ^ 64) ∧ factors.prod = value) ∧
    (∀ factors, HasFactors (expr.splitOn '*') factors → (∀ n ∈ factors, 0 < n) →
      (∀ value, evalByteExpr expr = .ok value ↔ factors.prod = value ∧ value < 2 ^ 64) ∧
      ∀ expr' factors', HasFactors (expr'.splitOn '*') factors' → factors'.Perm factors →
        ∀ value, evalByteExpr expr' = .ok value ↔ evalByteExpr expr = .ok value) := by
  constructor
  · intro value
    unfold evalByteExpr
    rw [foldlM_evalBytePart_eq_ok_iff (by decide)]
    unfold LeadingFit
    simp only [one_mul]
  · intro factors hfactors hpos
    refine ⟨evalByteExpr_eq_ok_iff_of_pos hfactors hpos, ?_⟩
    intro expr' factors' hfactors' hperm value
    have hpos' : ∀ n ∈ factors', 0 < n := fun n hn => hpos n (hperm.mem_iff.mp hn)
    rw [evalByteExpr_eq_ok_iff_of_pos hfactors' hpos', evalByteExpr_eq_ok_iff_of_pos hfactors hpos,
      hperm.prod_eq]

/-- `2 * 0` behind the largest number is refused, although the product is zero and the
other order is accepted. -/
theorem zero_after_overflow :
    HasFactors ("18446744073709551615 * 2 * 0".toList.splitOn '*') [18446744073709551615, 2, 0] ∧
      [18446744073709551615, 2, 0].prod = 0 ∧
      evalByteExpr "18446744073709551615 * 2 * 0".toList =
        .error "byte expression `18446744073709551615 * 2 * 0` overflows u64".toList ∧
      evalByteExpr "18446744073709551615 * 0 * 2".toList = .ok 0 :=
  ⟨by decide +kernel, by decide, rfl, rfl⟩

/-- Two orders of the same positive factors. -/
theorem byteExpr_eq_ok_iff_two_orders :
    evalByteExpr "1024 * 4096".toList = .ok 4194304 ∧
      evalByteExpr " 4096*1024 ".toList = .ok 4194304 := by
  have hfactors : HasFactors ("1024 * 4096".toList.splitOn '*') [1024, 4096] := by
    decide
  have hfactors' : HasFactors (" 4096*1024 ".toList.splitOn '*') [4096, 1024] := by
    decide
  obtain ⟨hvalue, horder⟩ := (byteExpr_eq_ok_iff "1024 * 4096".toList).2 _ hfactors (by decide)
  have hok := (hvalue 4194304).mpr (by decide)
  exact ⟨hok, (horder _ _ hfactors' (by decide) _).mpr hok⟩

end Corsget
