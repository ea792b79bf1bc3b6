/-
# GuideRig.Proofs.Json.Number -- whole numbers are read as they are written

A literal is taken apart at the bytes that are no digits, and a run of digits has none; so the literal of
an integer is nothing but its sign and its digits. They are evaluated exactly as long as they fit 64 bits
(`takeDigits_of_lt`), the sign being one of those bits for a negative number.
-/

import Mathlib.Data.List.TakeWhile
import GuideRig.Json.Number
import GuideRig.Proofs.Text.Decimal

namespace GuideRig.Json

open Ascii

/-! ## Parts of a literal -/

theorem takeWhile_isDigit {ds : Bytes} (h : ∀ d ∈ ds, isDigit d = true) :
    ds.takeWhile isDigit = ds := by
  rw [List.takeWhile_eq_self_iff]
  exact h

theorem dropWhile_isDigit {ds : Bytes} (h : ∀ d ∈ ds, isDigit d = true) :
    ds.dropWhile isDigit = [] := by
  rw [List.dropWhile_eq_nil_iff]
  exact h

/-- Digits alone are the digits before the point. -/
theorem ofBytes_digits {ds : Bytes} (some_digit : ds ≠ []) (h : ∀ d ∈ ds, isDigit d = true) :
    Literal.ofBytes ds = ⟨false, ds, none, none⟩ := by
  obtain ⟨d, rest, rfl⟩ := List.exists_cons_of_ne_nil some_digit
  have unsigned : d ≠ byte '-' := by
    rintro rfl
    have digit := h _ List.mem_cons_self
    cases digit
  simp only [Literal.ofBytes, if_neg unsigned, takeWhile_isDigit h, dropWhile_isDigit h]

/-- After a minus sign too. -/
theorem ofBytes_minus {ds : Bytes} (h : ∀ d ∈ ds, isDigit d = true) :
    Literal.ofBytes (byte '-' :: ds) = ⟨true, ds, none, none⟩ := by
  simp only [Literal.ofBytes, if_pos, takeWhile_isDigit h, dropWhile_isDigit h]

/-! ## Values -/

namespace Number

/-- All digits are taken as long as their number fits. -/
theorem takeDigits_of_lt {s : Nat} {ds : Bytes} (h : ∀ d ∈ ds, isDigit d = true)
    (fits : valueFrom 10 s ds < wordLimit) : takeDigits s ds = (valueFrom 10 s ds, 0) := by
  induction ds generalizing s with
  | nil => rfl
  | cons d ds ih =>
    obtain ⟨first, later⟩ := List.forall_mem_cons.mp h
    rw [valueFrom_cons first] at fits ⊢
    -- the number so far is not larger than the whole, so it fits too
    have small := Nat.lt_of_le_of_lt (le_valueFrom (by decide) _ ds) fits
    rw [takeDigits]
    rw [if_pos small, ih later fits]

theorem takeDigits_decimal {n : Nat} (h : n < wordLimit) :
    takeDigits 0 (Ascii.decimal n) = (n, 0) := by
  have whole : valueFrom 10 0 (Ascii.decimal n) = n := value_decimal n
  rw [takeDigits_of_lt (fun d => isDigit_of_mem_decimal), whole]
  rw [whole]
  exact h

/-- The literal of an integer of 64 bits, signed or not, has that integer as its value. -/
theorem ofLiteral_decimalInt {v : Int} (low : -(twoTo 63 : Int) ≤ v) (high : v < twoTo 64) :
    ofLiteral (Literal.ofBytes (decimalInt v)) = .ok (.whole v) := by
  have digits : ∀ d ∈ Ascii.decimal v.natAbs, isDigit d = true := fun d => isDigit_of_mem_decimal
  have signed : twoTo 63 = 9223372036854775808 := rfl
  have unsigned : twoTo 64 = 18446744073709551616 := rfl
  have small : v.natAbs < wordLimit := by
    show v.natAbs < twoTo 64
    omega
  have taken := takeDigits_decimal small
  rw [decimalInt]
  by_cases negative : v < 0
  · have fits : (1 ≤ v.natAbs && v.natAbs ≤ twoTo 63) = true := by
      rw [Bool.and_eq_true, decide_eq_true_eq, decide_eq_true_eq]
      omega
    have value : -(v.natAbs : Int) = v := by omega
    rw [if_pos negative, ofBytes_minus digits, ofLiteral]
    simp only [taken, fits, value, Option.isNone_none, decide_true, Bool.and_self, Bool.not_true,
      Bool.false_eq_true, if_true, if_false]
  · have value : (v.natAbs : Int) = v := by omega
    rw [if_neg negative, ofBytes_digits (decimal_ne_nil _) digits, ofLiteral]
    simp only [taken, value, Option.isNone_none, decide_true, Bool.and_self, Bool.not_false, if_true]

end Number

end GuideRig.Json
