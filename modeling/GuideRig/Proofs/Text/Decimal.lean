/-
# GuideRig.Proofs.Text.Decimal -- decimal digits and the number that they write

The digits of a number are digits (`isDigit_of_mem_decimal`), none of them leads with a zero but that of
zero itself, and read from left to right they give the number back (`value_decimal`).
-/

import Mathlib.Tactic.Common
import GuideRig.Proofs.Text.Utf8
import GuideRig.Text.Ascii

namespace GuideRig.Ascii

/-! ## Digits -/

theorem isDigit_iff {b : UInt8} : isDigit b = true ↔ 48 ≤ b.toNat ∧ b.toNat ≤ 57 := by
  simp only [isDigit, Bool.and_eq_true, decide_eq_true_eq, UInt8.le_iff_toNat_le]
  rfl

/-- The byte of a digit is that of its value, counted from the byte of zero. -/
theorem toNat_digit {n : Nat} (h : n < 10) : (n + (byte '0').toNat).toUInt8.toNat = n + 48 := by
  have zero : (byte '0').toNat = 48 := rfl
  rw [zero, Utf8.toNat_toUInt8 (by omega)]

theorem isDigit_digit {n : Nat} (h : n < 10) : isDigit (n + (byte '0').toNat).toUInt8 = true := by
  rw [isDigit_iff, toNat_digit h]
  omega

theorem ne_of_isDigit {d b : UInt8} (h : isDigit d = true) (other : isDigit b = false) : d ≠ b := by
  rintro rfl
  rw [h] at other
  cases other

theorem hexValue?_of_isDigit {d : UInt8} (h : isDigit d = true) :
    hexValue? d = some (d.toNat - (byte '0').toNat) := by
  rw [hexValue?, if_pos h]

/-! ## The digits of a number -/

theorem decimal_of_lt {n : Nat} (h : n < 10) : decimal n = [(n + (byte '0').toNat).toUInt8] := by
  rw [decimal, if_pos h]

theorem decimal_of_le {n : Nat} (h : 10 ≤ n) :
    decimal n = decimal (n / 10) ++ [(n % 10 + (byte '0').toNat).toUInt8] := by
  rw [decimal, if_neg (Nat.not_lt.mpr h)]

theorem isDigit_of_mem_decimal {n : Nat} {d : UInt8} (h : d ∈ decimal n) : isDigit d = true := by
  induction n using decimal.induct with
  | case1 n small =>
    rw [decimal_of_lt small, List.mem_singleton] at h
    rw [h]
    exact isDigit_digit small
  | case2 n large ih =>
    rw [decimal_of_le (Nat.not_lt.mp large), List.mem_append, List.mem_singleton] at h
    rcases h with before | rfl
    · exact ih before
    · exact isDigit_digit (Nat.mod_lt n (by decide))

theorem decimal_ne_nil (n : Nat) : decimal n ≠ [] := by
  rw [decimal]
  split
  · exact List.cons_ne_nil _ _
  · exact List.append_ne_nil_of_right_ne_nil _ (List.cons_ne_nil _ _)

/-- The first digit of a number that is not zero is not zero. -/
theorem exists_decimal_cons {n : Nat} (h : n ≠ 0) :
    ∃ d ds, decimal n = d :: ds ∧ d ≠ byte '0' := by
  induction n using decimal.induct with
  | case1 n small =>
    refine ⟨_, [], decimal_of_lt small, ?_⟩
    intro zero
    have same := toNat_digit small
    rw [zero] at same
    have value : (byte '0').toNat = 48 := rfl
    omega
  | case2 n large ih =>
    obtain ⟨d, ds, first, other⟩ := ih (by omega)
    refine ⟨d, ds ++ [(n % 10 + (byte '0').toNat).toUInt8], ?_, other⟩
    rw [decimal_of_le (Nat.not_lt.mp large), first, List.cons_append]

/-! ## The number of some digits -/

theorem valueFrom_append (n : Nat) (ds es : Bytes) :
    valueFrom 10 n (ds ++ es) = valueFrom 10 (valueFrom 10 n ds) es :=
  List.foldl_append

theorem valueFrom_cons {d : UInt8} (h : isDigit d = true) (n : Nat) (ds : Bytes) :
    valueFrom 10 n (d :: ds) = valueFrom 10 (n * 10 + (d.toNat - (byte '0').toNat)) ds := by
  rw [valueFrom, List.foldl_cons, hexValue?_of_isDigit h, Option.getD_some, valueFrom]

/-- More digits make no number smaller. -/
theorem le_valueFrom {base : Nat} (positive : 0 < base) (n : Nat) (ds : Bytes) :
    n ≤ valueFrom base n ds := by
  induction ds generalizing n with
  | nil => exact Nat.le_refl n
  | cons d ds ih =>
    calc n ≤ n * base := Nat.le_mul_of_pos_right n positive
      _ ≤ n * base + (hexValue? d).getD 0 := Nat.le_add_right ..
      _ ≤ valueFrom base n (d :: ds) := ih _

theorem valueFrom_digit {n : Nat} (h : n < 10) (m : Nat) :
    valueFrom 10 m [(n + (byte '0').toNat).toUInt8] = m * 10 + n := by
  have zero : (byte '0').toNat = 48 := rfl
  rw [valueFrom_cons (isDigit_digit h), toNat_digit h, zero, Nat.add_sub_cancel]
  rfl

/-- Its digits give a number back. -/
theorem value_decimal (n : Nat) : value (decimal n) = n := by
  rw [value]
  induction n using decimal.induct with
  | case1 n small =>
    rw [decimal_of_lt small, valueFrom_digit small, Nat.zero_mul, Nat.zero_add]
  | case2 n large ih =>
    rw [decimal_of_le (Nat.not_lt.mp large), valueFrom_append, ih,
      valueFrom_digit (Nat.mod_lt n (by decide)), Nat.mul_comm, Nat.div_add_mod]

end GuideRig.Ascii
