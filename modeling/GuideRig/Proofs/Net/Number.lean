/-
# GuideRig.Proofs.Net.Number -- the numbers in addresses

Bytes and ports are written in decimal, groups in hexadecimal, both by the same rule: the last digit is
what is left by a division, the digits before it write the quotient (`WritesDigits`). A number that is
written so is read back over whatever may follow it, as long as no digit does (`EndsNumber`), and no zero
leads it, which bytes must not have.
-/

import Mathlib.Algebra.Group.Nat.Defs
import GuideRig.Net.Address
import GuideRig.Proofs.Text.Decimal
import GuideRig.Proofs.Text.Percent
import GuideRig.Proofs.Text.Span

namespace GuideRig

open Ascii

/-! ## Digits -/

/-- What comes next is no digit in any base. -/
def EndsNumber (s : Bytes) : Prop := ∀ b ∈ s.head?, hexValue? b = none

theorem endsNumber_nil : EndsNumber [] := by
  rintro b ⟨⟩

theorem endsNumber_cons {b : UInt8} (valueless : hexValue? b = none) (s : Bytes) :
    EndsNumber (b :: s) := by
  rintro _ ⟨⟩
  exact valueless

/-- A byte is a digit in a base. -/
def isDigitIn (base : Nat) (b : UInt8) : Bool :=
  match hexValue? b with
  | some v => decide (v < base)
  | none => false

theorem isDigitIn_of_value {base v : Nat} {b : UInt8} (value : hexValue? b = some v) :
    isDigitIn base b = decide (v < base) := by
  rw [isDigitIn, value]

variable {base limit : Nat} {most : Option Nat} {zeros : Bool} {rest : Bytes}

theorem EndsNumber.stops (ends : EndsNumber rest) (base : Nat) : Stops (isDigitIn base) rest := by
  intro b hb
  rw [isDigitIn, ends b hb]

/-! ## Reading -/

theorem readNumber_eq (s : Bytes) :
    readNumber base most limit zeros s =
      let ds := s.takeWhile (isDigitIn base)
      if ds.isEmpty then none
      else if most.any fun m => decide (m < ds.length) then none
      else if limit < valueFrom base 0 ds then none
      else if !zeros && ds.head? == some (byte '0') && 1 < ds.length then none
      else some (valueFrom base 0 ds, s.dropWhile (isDigitIn base)) := rfl

/-- No number is read where none begins. -/
theorem readNumber_of_ends {s : Bytes} (ends : EndsNumber s) :
    readNumber base most limit zeros s = none := by
  have none_taken : s.takeWhile (isDigitIn base) = [] :=
    takeWhile_part (List.forall_mem_nil _) (ends.stops base)
  rw [readNumber_eq, none_taken]
  rfl

/-- What is left after a number begins behind its digits. -/
theorem rest_of_readNumber {s r : Bytes} {v : Nat} (read : readNumber base most limit zeros s = some (v, r)) :
    r = s.dropWhile (isDigitIn base) := by
  rw [readNumber_eq] at read
  dsimp only at read
  repeat' split at read
  all_goals cases read
  rfl

/-! ## Writing -/

/-- Numbers are written by their digits in a base, from the first to the last. -/
structure WritesDigits (base : Nat) (write : Nat → Bytes) : Prop where
  one_lt : 1 < base
  /-- The last digit stands behind the digits of what is left without it, if anything is. -/
  last (n : Nat) : ∃ d, hexValue? d = some (n % base) ∧
    write n = (if n < base then [] else write (n / base)) ++ [d]

namespace WritesDigits

variable {write : Nat → Bytes}

theorem isDigitIn (w : WritesDigits base write) {n : Nat} {d : UInt8} (h : d ∈ write n) :
    GuideRig.isDigitIn base d = true := by
  induction n using Nat.strongRecOn with
  | ind n ih =>
    obtain ⟨e, value, written⟩ := w.last n
    rw [written, List.mem_append, List.mem_singleton] at h
    rcases h with before | rfl
    · split at before
      · cases before
      · rename_i large
        exact ih (n / base) (Nat.div_lt_self (by have := w.one_lt; omega) w.one_lt) before
    · rw [isDigitIn_of_value value]
      exact decide_eq_true (Nat.mod_lt n (Nat.lt_trans Nat.zero_lt_one w.one_lt))

/-- Its digits give a number back. -/
theorem valueFrom_write (w : WritesDigits base write) (n : Nat) : valueFrom base 0 (write n) = n := by
  induction n using Nat.strongRecOn with
  | ind n ih =>
    obtain ⟨e, value, written⟩ := w.last n
    have step (ds : Bytes) : valueFrom base 0 (ds ++ [e]) = valueFrom base 0 ds * base + n % base := by
      rw [valueFrom, List.foldl_append, List.foldl_cons, List.foldl_nil, value, Option.getD_some, valueFrom]
    rw [written, step]
    split
    · rename_i small
      rw [Nat.mod_eq_of_lt small]
      exact (congrArg (· + n) (Nat.zero_mul base)).trans (Nat.zero_add n)
    · rename_i large
      rw [ih (n / base) (Nat.div_lt_self (by have := w.one_lt; omega) w.one_lt), Nat.mul_comm,
        Nat.div_add_mod]

theorem length_le (w : WritesDigits base write) {n k : Nat} (h : n < base ^ (k + 1)) :
    (write n).length ≤ k + 1 := by
  induction k generalizing n with
  | zero =>
    obtain ⟨e, -, written⟩ := w.last n
    rw [Nat.zero_add, Nat.pow_one] at h
    rw [written, if_pos h]
    exact Nat.le_refl 1
  | succ k ih =>
    obtain ⟨e, -, written⟩ := w.last n
    rw [written, List.length_append]
    split
    · exact Nat.succ_le_succ (Nat.zero_le _)
    · exact Nat.succ_le_succ (ih (Nat.div_lt_of_lt_mul (by rwa [Nat.pow_succ, Nat.mul_comm] at h)))

/-- A zero leads no digits but those of zero. -/
theorem head?_write (w : WritesDigits base write) {n : Nat} (h : (write n).head? = some (byte '0')) :
    n = 0 := by
  induction n using Nat.strongRecOn with
  | ind n ih =>
    obtain ⟨e, value, written⟩ := w.last n
    rw [written] at h
    split at h
    · rename_i small
      have zero : e = byte '0' := Option.some.inj h
      rw [zero, Nat.mod_eq_of_lt small] at value
      exact (Option.some.inj value).symm
    · rename_i large
      have less : n / base < n := Nat.div_lt_self (by have := w.one_lt; omega) w.one_lt
      have positive : 0 < n / base := Nat.div_pos (Nat.not_lt.mp large) (Nat.lt_trans Nat.zero_lt_one w.one_lt)
      obtain ⟨_, _, before⟩ := w.last (n / base)
      have some_before : write (n / base) ≠ [] := by
        rw [before]
        exact List.append_ne_nil_of_right_ne_nil _ (List.cons_ne_nil _ _)
      obtain ⟨d, ds, front⟩ := List.exists_cons_of_ne_nil some_before
      rw [front] at h
      have zero := ih (n / base) less (by rw [front]; exact h)
      exact absurd zero (Nat.ne_of_gt positive)

/-- A number that is within the limits is read back from its digits. -/
theorem readNumber_write (w : WritesDigits base write) {n : Nat} (fits : n ≤ limit)
    (few : ∀ m ∈ most, (write n).length ≤ m) (ends : EndsNumber rest) :
    readNumber base most limit zeros (write n ++ rest) = some (n, rest) := by
  have digits : ∀ d ∈ write n, GuideRig.isDigitIn base d = true := fun d => w.isDigitIn
  have some_digit : (write n).isEmpty = false := by
    obtain ⟨e, -, written⟩ := w.last n
    rw [written, List.isEmpty_eq_false_iff]
    exact List.append_ne_nil_of_right_ne_nil _ (List.cons_ne_nil _ _)
  have not_many : (most.any fun m => decide (m < (write n).length)) = false := by
    cases most with
    | none => rfl
    | some m => exact decide_eq_false (Nat.not_lt.mpr (few m rfl))
  have bare : (!zeros && (write n).head? == some (byte '0') && decide (1 < (write n).length)) = false := by
    by_cases zero : (write n).head? = some (byte '0')
    · have small : n < base ^ (0 + 1) := by
        rw [w.head?_write zero, Nat.zero_add, Nat.pow_one]
        exact Nat.lt_trans Nat.zero_lt_one w.one_lt
      rw [decide_eq_false (Nat.not_lt.mpr (w.length_le small)), Bool.and_false]
    · rw [beq_eq_false_iff_ne.mpr zero, Bool.and_false, Bool.false_and]
  rw [readNumber_eq, takeWhile_part digits (ends.stops base), dropWhile_part digits (ends.stops base)]
  simp only [some_digit, not_many, bare, w.valueFrom_write, Bool.false_eq_true, if_false,
    if_neg (Nat.not_lt.mpr fits)]

end WritesDigits

theorem writesDigits_decimal : WritesDigits 10 decimal := by
  refine ⟨by decide, fun n => ⟨(n % 10 + (byte '0').toNat).toUInt8, ?_, ?_⟩⟩
  · have digit : ∀ v < 10, hexValue? (v + (byte '0').toNat).toUInt8 = some v := by decide
    exact digit _ (Nat.mod_lt n (by decide))
  · by_cases small : n < 10
    · rw [if_pos small, decimal_of_lt small, Nat.mod_eq_of_lt small, List.nil_append]
    · rw [if_neg small, decimal_of_le (Nat.not_lt.mp small)]

theorem writesDigits_hex : WritesDigits 16 Ipv6.hex := by
  refine ⟨by decide, fun n => ⟨lowerHex (n % 16), hexValue?_lowerHex (Nat.mod_lt n (by decide)), ?_⟩⟩
  by_cases small : n < 16
  · rw [Ipv6.hex, if_pos small, if_pos small, Nat.mod_eq_of_lt small, List.nil_append]
  · rw [Ipv6.hex, if_neg small, if_neg small]

end GuideRig
