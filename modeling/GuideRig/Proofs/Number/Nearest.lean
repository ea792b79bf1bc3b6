/-
# GuideRig.Proofs.Number.Nearest -- what rounding to a double is, and that `Binary64.round` does it

`RoundsTo x y` says over the rationals, and with no algorithm in it, that `y` is the double nearest to
`x`, a tie going to the even significand. The module shows that every operation of `Binary64` is the
exact result rounded in this sense, and draws the two consequences on which all later bounds rest:
rounding never passes a double that the exact value does not pass, and a double is its own rounding.

Exponents have no upper end here, so a value past the largest double is "rounded" as if there were
more of them; `Binary64.isInfinite` is where such values are told apart.
-/

import Mathlib.Algebra.Order.Field.Basic
import Mathlib.Data.Rat.Cast.Order
import Mathlib.Tactic.FieldSimp
import Mathlib.Tactic.Linarith
import Mathlib.Tactic.Positivity
import Mathlib.Tactic.Ring
import GuideRig.Number.Binary64

namespace GuideRig

/-! ## The nearest whole number -/

/-- `k` is the whole number nearest to `x`, a half going to the even neighbour. -/
structure NearestWhole (x : ℚ) (k : ℕ) : Prop where
  near : |x - k| ≤ 1 / 2
  even : |x - k| = 1 / 2 → Even k

namespace NearestWhole

variable {x : ℚ} {k m : ℕ}

/-- A whole number at or above the exact value is not passed. -/
theorem le_of_le (h : NearestWhole x k) (hx : x ≤ m) : k ≤ m := by
  have upper := (abs_le.mp h.near).1
  have : (k : ℚ) < m + 1 := by linarith
  exact Nat.lt_succ_iff.mp (by exact_mod_cast this)

/-- A whole number at or below the exact value is not passed. -/
theorem le_of_ge (h : NearestWhole x k) (hx : m ≤ x) : m ≤ k := by
  have lower := (abs_le.mp h.near).2
  have : (m : ℚ) < k + 1 := by linarith
  exact Nat.lt_succ_iff.mp (by exact_mod_cast this)

/-- Every other whole number is at least half a unit away. -/
theorem half_le_of_ne (h : NearestWhole x k) (hm : m ≠ k) : 1 / 2 ≤ |x - m| := by
  obtain ⟨lower, upper⟩ := abs_le.mp h.near
  rcases Nat.lt_or_gt_of_ne hm with hlt | hgt
  · have : (m : ℚ) + 1 ≤ k := by exact_mod_cast hlt
    exact le_trans (by linarith) (le_abs_self _)
  · have : (k : ℚ) + 1 ≤ m := by exact_mod_cast hgt
    exact le_trans (by linarith) (neg_le_abs _)

/-- No whole number is nearer. -/
theorem nearest (h : NearestWhole x k) (m : ℕ) : |x - k| ≤ |x - m| := by
  by_cases hm : m = k
  · rw [hm]
  · exact le_trans h.near (h.half_le_of_ne hm)

/-- Where two whole numbers are equally near, the chosen one is even. -/
theorem even_of_tie (h : NearestWhole x k) (hm : m ≠ k) (tie : |x - m| = |x - k|) : Even k := by
  have far := h.half_le_of_ne hm
  exact h.even (le_antisymm h.near (tie ▸ far))

end NearestWhole

/-- `roundDiv` is the nearest whole number to a quotient. -/
theorem roundDiv_nearest (n : ℕ) {d : ℕ} (hd : 0 < d) :
    NearestWhole ((n : ℚ) / d) (roundDiv n d) := by
  have hdq : (0 : ℚ) < d := by exact_mod_cast hd
  have parts : (n : ℚ) / d = (n / d : ℕ) + (n % d : ℕ) / (d : ℚ) := by
    have whole : (d : ℚ) * (n / d : ℕ) + (n % d : ℕ) = n := by exact_mod_cast Nat.div_add_mod n d
    field_simp
    linarith
  have twice : ∀ f : ℚ, f = (n % d : ℕ) / (d : ℚ) → 2 * f * d = 2 * (n % d : ℕ) := by
    rintro f rfl
    field_simp
  generalize hf : ((n % d : ℕ) : ℚ) / d = f at parts
  have scaled := twice f hf.symm
  have f_nonneg : 0 ≤ f := hf ▸ by positivity
  unfold roundDiv
  dsimp only
  by_cases below : 2 * (n % d) < d
  · rw [if_pos below]
    have hq : (2 : ℚ) * (n % d : ℕ) < d := by exact_mod_cast below
    have small : f < 1 / 2 := by nlinarith
    have dist : |(n : ℚ) / d - (n / d : ℕ)| = f := by
      rw [parts, add_sub_cancel_left, abs_of_nonneg f_nonneg]
    exact ⟨by linarith, fun tie => by linarith⟩
  · rw [if_neg below]
    have hr : ((n % d : ℕ) : ℚ) < d := by exact_mod_cast Nat.mod_lt n hd
    have less_one : f < 1 := by nlinarith
    by_cases above : d < 2 * (n % d)
    · rw [if_pos above]
      have hq : (d : ℚ) < 2 * (n % d : ℕ) := by exact_mod_cast above
      have large : 1 / 2 < f := by nlinarith
      have dist : |(n : ℚ) / d - (n / d + 1 : ℕ)| = 1 - f := by
        rw [parts, abs_of_nonpos (by push_cast; linarith)]
        push_cast
        ring
      exact ⟨by linarith, fun tie => by linarith⟩
    · rw [if_neg above]
      have hq : (2 : ℚ) * (n % d : ℕ) = d := by exact_mod_cast (show 2 * (n % d) = d by omega)
      have half : f = 1 / 2 := by nlinarith
      -- a tie: the quotient itself if it is even, else the number after it
      have dist : |(n : ℚ) / d - (n / d + n / d % 2 : ℕ)| = 1 / 2 := by
        rcases Nat.mod_two_eq_zero_or_one (n / d) with even | odd
        · rw [even, parts, half]
          norm_num
        · rw [odd, parts, half]
          push_cast
          rw [show ((n / d : ℕ) : ℚ) + 1 / 2 - ((n / d : ℕ) + 1) = -(1 / 2) by ring]
          norm_num
      exact ⟨dist.le, fun _ => by rw [Nat.even_iff]; omega⟩

/-! ## Doubles -/

/-- The number that a double stands for. -/
def Binary64.value (a : Binary64) : ℚ := (a.units : ℚ) / Binary64.one

/-- A number of at most 53 significant bits, none of which counts less than `2^-1074`. -/
def IsDouble (x : ℚ) : Prop := ∃ m k : ℕ, m < 2 ^ 53 ∧ x = m * 2 ^ k / Binary64.one

/-- The significand is even. It has 53 bits, unless its last bit already counts `2^-1074`. -/
def EvenSignificand (x : ℚ) : Prop :=
  ∃ m k : ℕ, Even m ∧ m < 2 ^ 53 ∧ (2 ^ 52 ≤ m ∨ k = 0) ∧ x = m * 2 ^ k / Binary64.one

/-- `y` is the double nearest to `x`; where another one is as near, the significand of `y` is even. -/
structure RoundsTo (x y : ℚ) : Prop where
  isDouble : IsDouble y
  nearest : ∀ z, IsDouble z → |x - y| ≤ |x - z|
  even : ∀ z, IsDouble z → z ≠ y → |x - z| = |x - y| → EvenSignificand y

theorem twoTo_eq (k : ℕ) : twoTo k = 2 ^ k := rfl

theorem twoTo_add (a b : ℕ) : twoTo (a + b) = twoTo a * twoTo b := Nat.pow_add 2 a b

theorem cast_twoTo (k : ℕ) : (twoTo k : ℚ) = 2 ^ k := by
  rw [twoTo_eq, Nat.cast_pow, Nat.cast_ofNat]

namespace Binary64

/-- One is a power of two. The exponent is kept behind an equation so that nothing computes with it. -/
theorem one_eq : ∃ e, e = 1074 ∧ (one : ℚ) = 2 ^ e := ⟨1074, rfl, cast_twoTo 1074⟩

theorem one_pos : (0 : ℚ) < one := by
  obtain ⟨e, -, h⟩ := one_eq
  rw [h]
  positivity

end Binary64

namespace IsDouble

/-- Scaling by the smallest double is exact. -/
theorem of_units {m : ℕ} (k : ℕ) (hm : m ≤ 2 ^ 53) : IsDouble (m * 2 ^ k / Binary64.one) := by
  rcases Nat.lt_or_eq_of_le hm with hlt | rfl
  · exact ⟨m, k, hlt, rfl⟩
  · refine ⟨2 ^ 52, k + 1, by norm_num, ?_⟩
    push_cast
    ring

/-- Whole numbers up to `2^53` are doubles. -/
theorem natCast {n : ℕ} (hn : n ≤ 2 ^ 53) : IsDouble n := by
  obtain ⟨e, -, one_eq⟩ := Binary64.one_eq
  have h := of_units e hn
  rwa [← one_eq, mul_div_cancel_right₀ _ Binary64.one_pos.ne'] at h

theorem nonneg {x : ℚ} (h : IsDouble x) : 0 ≤ x := by
  obtain ⟨m, k, -, rfl⟩ := h
  exact div_nonneg (by positivity) Binary64.one_pos.le

/-- Seen from a power of two, a double is a multiple of it or has too few bits to reach 53 of them. -/
theorem grid {x : ℚ} (h : IsDouble x) (t : ℕ) :
    (∃ c : ℕ, x = c * 2 ^ t / Binary64.one) ∨ (t ≠ 0 ∧ x < 2 ^ 52 * 2 ^ t / Binary64.one) := by
  obtain ⟨m, k, hm, rfl⟩ := h
  rcases Nat.lt_or_ge k t with hlt | hge
  · refine .inr ⟨by omega, ?_⟩
    have significand : (m : ℚ) < 2 ^ 53 := by exact_mod_cast hm
    have : (m : ℚ) * 2 ^ k < 2 ^ 52 * 2 ^ t :=
      calc (m : ℚ) * 2 ^ k < 2 ^ 53 * 2 ^ k := by
            exact mul_lt_mul_of_pos_right significand (by positivity)
        _ = 2 ^ 52 * 2 ^ (k + 1) := by ring
        _ ≤ 2 ^ 52 * 2 ^ t := by
            exact mul_le_mul_of_nonneg_left (pow_le_pow_right₀ (by norm_num) hlt) (by positivity)
    exact div_lt_div_of_pos_right this Binary64.one_pos
  · refine .inl ⟨m * 2 ^ (k - t), ?_⟩
    push_cast
    rw [mul_assoc, ← pow_add, Nat.sub_add_cancel hge]

/-- From `2^53` on, all doubles are even numbers. -/
theorem even_of_large {x : ℚ} (h : IsDouble x) (hx : 2 ^ 53 ≤ x) : ∃ c : ℕ, x = 2 * c := by
  obtain ⟨e, -, one_eq⟩ := Binary64.one_eq
  have unit : (2 : ℚ) ^ (e + 1) / Binary64.one = 2 := by
    rw [pow_succ', ← one_eq, mul_div_cancel_right₀ _ Binary64.one_pos.ne']
  rcases h.grid (e + 1) with ⟨c, rfl⟩ | ⟨-, hlt⟩
  · exact ⟨c, by rw [mul_div_assoc, unit, mul_comm]⟩
  · rw [mul_div_assoc, unit] at hlt
    linarith

/-- Taking the whole seconds off a double leaves a double: only leading bits go. -/
theorem sub_natCast {x : ℚ} {n : ℕ} (h : IsDouble x) (low : (n : ℚ) ≤ x) (high : x < n + 1) :
    IsDouble (x - n) := by
  obtain ⟨e, -, one_eq⟩ := Binary64.one_eq
  obtain ⟨m, k, hm, rfl⟩ := h
  have onePos := Binary64.one_pos
  rcases Nat.lt_or_ge k e with hlt | hge
  · have whole : (n : ℚ) = (n * 2 ^ (e - k) : ℕ) * 2 ^ k / Binary64.one := by
      push_cast
      rw [mul_assoc, ← pow_add, Nat.sub_add_cancel hlt.le, ← one_eq,
        mul_div_cancel_right₀ _ onePos.ne']
    have le : n * 2 ^ (e - k) ≤ m := by
      rw [whole, div_le_div_iff_of_pos_right onePos] at low
      exact_mod_cast le_of_mul_le_mul_right low (by positivity)
    refine ⟨m - n * 2 ^ (e - k), k, by omega, ?_⟩
    rw [Nat.cast_sub le, sub_mul, sub_div, ← whole]
  · -- a double with no bits below one is a whole number, so it is `n` itself
    have whole : (m : ℚ) * 2 ^ k / Binary64.one = (m * 2 ^ (k - e) : ℕ) := by
      rw [div_eq_iff onePos.ne', one_eq]
      push_cast
      rw [mul_assoc, ← pow_add, Nat.sub_add_cancel hge]
    rw [whole] at low high ⊢
    have same : m * 2 ^ (k - e) = n :=
      Nat.le_antisymm (Nat.lt_succ_iff.mp (by exact_mod_cast high)) (by exact_mod_cast low)
    rw [same, sub_self]
    exact natCast (n := 0) (Nat.zero_le _)

/-- A double that is not among the smallest has a significand of exactly 53 bits, and its last bit is
not the smallest double. -/
theorem normal {x : ℚ} (h : IsDouble x) (hx : 2 ^ 53 / Binary64.one ≤ x) :
    ∃ m k : ℕ, 2 ^ 52 ≤ m ∧ m < 2 ^ 53 ∧ x = m * 2 ^ (k + 1) / Binary64.one := by
  obtain ⟨m, k, hm, rfl⟩ := h
  rw [div_le_div_iff_of_pos_right Binary64.one_pos] at hx
  have large : 2 ^ 53 ≤ m * 2 ^ k := by exact_mod_cast hx
  have hm0 : m ≠ 0 := by
    rintro rfl
    omega
  have low := Nat.log2_self_le hm0
  have high := Nat.lt_log2_self (n := m)
  -- the significand is moved up until it has all of its 53 bits
  have bits : m.log2 < 53 := (Nat.log2_lt hm0).mpr hm
  have room : 53 < m.log2 + 1 + k := by
    refine (Nat.pow_lt_pow_iff_right (a := 2) (by norm_num)).mp ?_
    calc 2 ^ 53 ≤ m * 2 ^ k := large
      _ < 2 ^ (m.log2 + 1) * 2 ^ k := Nat.mul_lt_mul_of_pos_right high (Nat.two_pow_pos k)
      _ = 2 ^ (m.log2 + 1 + k) := (Nat.pow_add 2 _ _).symm
  refine ⟨m * 2 ^ (52 - m.log2), k - (52 - m.log2) - 1, ?_, ?_, ?_⟩
  · calc 2 ^ 52 = 2 ^ m.log2 * 2 ^ (52 - m.log2) := by
          rw [← Nat.pow_add, Nat.add_sub_cancel' (by omega)]
      _ ≤ m * 2 ^ (52 - m.log2) := Nat.mul_le_mul_right _ low
  · calc m * 2 ^ (52 - m.log2) < 2 ^ (m.log2 + 1) * 2 ^ (52 - m.log2) :=
          Nat.mul_lt_mul_of_pos_right high (Nat.two_pow_pos _)
      _ = 2 ^ 53 := by rw [← Nat.pow_add, show m.log2 + 1 + (52 - m.log2) = 53 by omega]
  · push_cast
    rw [mul_assoc, ← pow_add, show 52 - m.log2 + (k - (52 - m.log2) - 1 + 1) = k by omega]

end IsDouble

namespace RoundsTo

variable {x y z : ℚ}

/-- Rounding does not pass a double at or above the exact value. -/
theorem le_of_le (h : RoundsTo x y) (hz : IsDouble z) (hxz : x ≤ z) : y ≤ z := by
  by_contra hlt
  have near := h.nearest z hz
  rw [abs_of_nonpos (by linarith), abs_of_nonpos (by linarith)] at near
  linarith

/-- Rounding does not pass a double at or below the exact value. -/
theorem le_of_ge (h : RoundsTo x y) (hz : IsDouble z) (hzx : z ≤ x) : z ≤ y := by
  by_contra hlt
  have near := h.nearest z hz
  rw [abs_of_nonneg (by linarith), abs_of_nonneg (by linarith)] at near
  linarith

/-- A double is its own rounding. -/
theorem eq_of_isDouble (h : RoundsTo x y) (hx : IsDouble x) : y = x :=
  le_antisymm (h.le_of_le hx le_rfl) (h.le_of_ge hx le_rfl)

/-- A double times a fraction of 53 bits below one rounds to less than the double. The exact product
lies at least half a spacing below it, and exactly half only where the spacing halves there. -/
theorem mul_fraction_lt {j : ℕ} (hx : IsDouble x) (normal : 2 ^ 53 / Binary64.one ≤ x)
    (hj : j < 2 ^ 53) (h : RoundsTo (x * (j / 2 ^ 53)) y) : y < x := by
  obtain ⟨m, k, low, high, rfl⟩ := hx.normal normal
  have unit : (0 : ℚ) < 2 ^ k / Binary64.one := div_pos (by positivity) Binary64.one_pos
  have twice : ∀ c : ℚ, c * 2 ^ (k + 1) / Binary64.one = 2 * c * (2 ^ k / Binary64.one) := by
    intro c
    ring
  have once : ∀ c : ℚ, c * 2 ^ k / Binary64.one = c * (2 ^ k / Binary64.one) := by
    intro c
    ring
  have fraction : (j : ℚ) / 2 ^ 53 ≤ 1 - 1 / 2 ^ 53 := by
    have : (j : ℚ) + 1 ≤ 2 ^ 53 := by exact_mod_cast hj
    rw [div_le_iff₀ (by positivity)]
    linarith
  rw [twice] at h ⊢
  have below : 2 * m * (2 ^ k / Binary64.one) * ((j : ℚ) / 2 ^ 53)
      ≤ 2 * m * (2 ^ k / Binary64.one) * (1 - 1 / 2 ^ 53) :=
    mul_le_mul_of_nonneg_left fraction (mul_nonneg (by positivity) unit.le)
  generalize 2 * m * (2 ^ k / Binary64.one) * ((j : ℚ) / 2 ^ 53) = exact at h below
  rcases Nat.lt_or_eq_of_le low with inside | rfl
  · -- inside a binade the next double down is a whole spacing away, and nearer
    have pred : IsDouble (((m - 1 : ℕ) : ℚ) * 2 ^ (k + 1) / Binary64.one) :=
      IsDouble.of_units (k + 1) (by omega)
    rw [twice, Nat.cast_sub (by omega)] at pred
    generalize (2 : ℚ) ^ k / Binary64.one = g at *
    have hm : (2 : ℚ) ^ 52 + 1 ≤ m := by exact_mod_cast inside
    by_contra hge
    have near := h.nearest _ pred
    rcases le_total exact (2 * (m - (1 : ℕ)) * g) with hle | hle
    · have := h.le_of_le pred hle
      push_cast at this
      linarith
    · push_cast at near hle
      have gap : 2 * m * g * (1 - 1 / 2 ^ 53) < 2 * m * g - g := by nlinarith
      rw [abs_of_nonpos (by linarith), abs_of_nonneg (by linarith)] at near
      linarith
  · -- at its lower end the next double down is half a spacing away, and the product does not pass it
    have pred : IsDouble (((2 ^ 53 - 1 : ℕ) : ℚ) * 2 ^ k / Binary64.one) :=
      IsDouble.of_units k (by norm_num)
    rw [once] at pred
    generalize (2 : ℚ) ^ k / Binary64.one = g at *
    have := h.le_of_le pred (by push_cast at below ⊢; linarith)
    push_cast at this ⊢
    linarith

end RoundsTo

/-! ## The operations of `Binary64` -/

namespace Binary64

/-- The spacing is a power of two that leaves 53 bits of the quotient, or all of them. -/
theorem spacing_bounds (n : ℕ) {d : ℕ} (hd : 0 < d) :
    ∃ t, spacing n d = 2 ^ t ∧ (n : ℚ) / d < 2 ^ 53 * 2 ^ t ∧
      (t = 0 ∨ 2 ^ 52 * 2 ^ t ≤ (n : ℚ) / d) := by
  have hdq : (0 : ℚ) < d := by exact_mod_cast hd
  refine ⟨(n / d).log2 - 52, rfl, ?_, ?_⟩
  · have floor : n / d < 2 ^ (53 + ((n / d).log2 - 52)) :=
      lt_of_lt_of_le Nat.lt_log2_self (Nat.pow_le_pow_right (by norm_num) (by omega))
    rw [Nat.div_lt_iff_lt_mul hd] at floor
    rw [div_lt_iff₀ hdq, ← pow_add]
    exact_mod_cast floor
  · by_cases small : (n / d).log2 - 52 = 0
    · exact .inl small
    · right
      have nonzero : n / d ≠ 0 := by
        intro h
        rw [h] at small
        exact small (by simp)
      have floor : 2 ^ (52 + ((n / d).log2 - 52)) ≤ n / d := by
        rw [Nat.add_sub_cancel' (by omega)]
        exact Nat.log2_self_le nonzero
      rw [Nat.le_div_iff_mul_le hd] at floor
      rw [le_div_iff₀ hdq, ← pow_add]
      exact_mod_cast floor

/-- Rounding a quotient of units is rounding in the sense of `RoundsTo`. -/
theorem roundsTo_round (n : ℕ) {d : ℕ} (hd : 0 < d) :
    RoundsTo ((n : ℚ) / d / one) (round n d).value := by
  obtain ⟨t, hs, upper, lower⟩ := spacing_bounds n hd
  have hpow : (0 : ℚ) < 2 ^ t := by positivity
  have near := roundDiv_nearest n (Nat.mul_pos hd (Nat.two_pow_pos t))
  have hy : (round n d).value = roundDiv n (d * 2 ^ t) * 2 ^ t / one := by
    simp only [value, round, hs]
    push_cast
    rfl
  rw [hy]
  push_cast at near
  rw [← div_div] at near
  generalize roundDiv n (d * 2 ^ t) = r at near
  generalize (n : ℚ) / d = x at near upper lower
  have r_le : r ≤ 2 ^ 53 := by
    refine near.le_of_le (le_of_lt ?_)
    rw [div_lt_iff₀ hpow]
    exact_mod_cast upper
  have le_r : t = 0 ∨ 2 ^ 52 ≤ r := by
    refine lower.imp_right fun h => near.le_of_ge ?_
    rw [le_div_iff₀ hpow]
    exact_mod_cast h
  -- on multiples of the spacing, distances are those of whole numbers, scaled
  have dist : ∀ c : ℚ, |x / one - c * 2 ^ t / one| = |x / 2 ^ t - c| * (2 ^ t / one) := by
    intro c
    rw [← abs_of_pos (div_pos hpow one_pos), ← abs_mul]
    congr 1
    have := one_pos.ne'
    field_simp
  have scale : (0 : ℚ) < 2 ^ t / one := div_pos hpow one_pos
  have onGrid : ∀ c : ℕ, |x / one - r * 2 ^ t / one| ≤ |x / one - c * 2 ^ t / one| := by
    intro c
    rw [dist, dist]
    exact mul_le_mul_of_nonneg_right (near.nearest c) scale.le
  have offGrid : ∀ z : ℚ, t ≠ 0 → z < 2 ^ 52 * 2 ^ t / one →
      |x / one - r * 2 ^ t / one| < |x / one - z| := by
    intro z ht hz
    have bound : (2 : ℚ) ^ 52 * 2 ^ t / one ≤ x / one :=
      div_le_div_of_nonneg_right (lower.resolve_left ht) one_pos.le
    calc |x / one - r * 2 ^ t / one| ≤ |x / one - (2 ^ 52 : ℕ) * 2 ^ t / one| := onGrid _
      _ = x / one - 2 ^ 52 * 2 ^ t / one := by
          push_cast
          exact abs_of_nonneg (by linarith)
      _ < x / one - z := by linarith
      _ ≤ |x / one - z| := le_abs_self _
  -- any other double is on the grid of the spacing, or so small that it is not nearer
  refine ⟨IsDouble.of_units t r_le, fun z hz => ?_, fun z hz hne tie => ?_⟩
  · rcases hz.grid t with ⟨c, rfl⟩ | ⟨ht, hlt⟩
    · exact onGrid c
    · exact (offGrid z ht hlt).le
  · rcases hz.grid t with ⟨c, rfl⟩ | ⟨ht, hlt⟩
    · have hc : c ≠ r := by
        rintro rfl
        exact hne rfl
      rw [dist, dist] at tie
      have even := near.even_of_tie hc (mul_right_cancel₀ scale.ne' tie)
      rcases Nat.lt_or_eq_of_le r_le with hlt | rfl
      · exact ⟨r, t, even, hlt, le_r.symm, rfl⟩
      · refine ⟨2 ^ 52, t + 1, by decide, by norm_num, .inl le_rfl, ?_⟩
        push_cast
        ring
    · exact absurd tie (offGrid z ht hlt).ne'

theorem units_pos {a : Binary64} (h : 0 < a.value) : 0 < a.units := by
  by_contra zero
  rw [value, Nat.le_zero.mp (Nat.not_lt.mp zero), Nat.cast_zero, zero_div] at h
  exact lt_irrefl _ h

/-- A whole number is converted with one rounding. -/
theorem roundsTo_ofNat (n : ℕ) : RoundsTo n (ofNat n).value := by
  have h := roundsTo_round (one * n) Nat.one_pos
  push_cast at h
  rwa [div_one, mul_div_cancel_left₀ _ one_pos.ne'] at h

/-- Whole numbers up to `2^53` are converted exactly. -/
theorem value_ofNat {n : ℕ} (hn : n ≤ 2 ^ 53) : (ofNat n).value = n :=
  (roundsTo_ofNat n).eq_of_isDouble (IsDouble.natCast hn)

/-- A sum is rounded once. -/
theorem roundsTo_add (a b : Binary64) : RoundsTo (a.value + b.value) (a.add b).value := by
  have h := roundsTo_round (a.units + b.units) Nat.one_pos
  push_cast at h
  rwa [div_one, add_div] at h

/-- A product is rounded once. -/
theorem roundsTo_mul (a b : Binary64) : RoundsTo (a.value * b.value) (a.mul b).value := by
  have h := roundsTo_round (a.units * b.units) (by exact_mod_cast one_pos : 0 < one)
  push_cast at h
  rwa [mul_div_assoc, mul_div_right_comm] at h

/-- A quotient is rounded once. -/
theorem roundsTo_div (a b : Binary64) (hb : 0 < b.units) :
    RoundsTo (a.value / b.value) (a.div b).value := by
  have h := roundsTo_round (one * a.units) hb
  have same : a.value / b.value = (one : ℚ) * a.units / b.units / one := by
    have := one_pos.ne'
    have : (b.units : ℚ) ≠ 0 := by exact_mod_cast hb.ne'
    simp only [value]
    field_simp
  rw [same]
  exact_mod_cast h

end Binary64

end GuideRig
