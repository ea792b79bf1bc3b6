/-
# GuideRig.Proofs.Random -- draws stay in their range, and reach all of it

A draw below `n` is the upper half of a product with `n`, moved up by at most one carry. The carry
comes out of the upper half of a second such product, which is itself below `n`; so the sum that the
draw is read from never reaches `n` times `2^32`. Every number below `n` is the upper half of some such
product (`aim`), and so is drawn by that word, whether or not a second one is looked at after it.
-/

import GuideRig.Random
import GuideRig.Proofs.Number.Nearest

namespace GuideRig

namespace Words

/-! ## Half words -/

theorem low_lt (w : Words) : w.low < 2 ^ 32 := by
  rw [low, twoTo_eq]
  exact Nat.mod_lt _ (by norm_num)

/-- A half word times `n`, with up to `n - 1` more, has an upper half below `n`. -/
theorem low_mul_add_lt {n h : ℕ} (small : h < n) (w : Words) : (w.low * n + h) / 2 ^ 32 < n := by
  have half : w.low ≤ 2 ^ 32 - 1 := Nat.le_sub_one_of_lt w.low_lt
  have product : w.low * n ≤ (2 ^ 32 - 1) * n := Nat.mul_le_mul_right n half
  omega

/-! ## Numbers below a bound -/

/-- The number drawn is below the bound. -/
theorem below_lt {n : ℕ} (pos : 0 < n) (w : Words) : (w.below n).1 < n := by
  have second : w.next.low * n / 2 ^ 32 < n := low_mul_add_lt pos w.next
  have first : (w.low * n + 0) / 2 ^ 32 < n := low_mul_add_lt pos w
  have sum := low_mul_add_lt second w
  simp only [below]
  by_cases close : twoTo 32 - n < w.low * n % twoTo 32
  · -- a carry is one out of the sum that `sum` bounds
    rw [if_pos close]
    by_cases carry : twoTo 32 ≤ w.low * n % twoTo 32 + w.next.low * n / twoTo 32
    · rw [if_pos carry]
      rw [twoTo_eq] at carry ⊢
      omega
    · rw [if_neg carry, twoTo_eq]
      omega
  · rw [if_neg close, twoTo_eq]
    omega

/-- Whether a second word is looked at: the lower half of the product is within `n` of its end. -/
def IsClose (n : ℕ) (w : Words) : Prop := 2 ^ 32 - n < w.low * n % 2 ^ 32

/-- A draw takes one word, or two if the first is too close to the next number. -/
theorem words_below (n : ℕ) (w : Words) :
    (IsClose n w ∧ (w.below n).2 = w.next.next) ∨ (¬ IsClose n w ∧ (w.below n).2 = w.next) := by
  have close_iff : IsClose n w ↔ twoTo 32 - n < w.low * n % twoTo 32 := by
    rw [IsClose, twoTo_eq]
  rw [close_iff]
  simp only [below]
  by_cases close : twoTo 32 - n < w.low * n % twoTo 32
  · rw [if_pos close]
    exact .inl ⟨close, rfl⟩
  · rw [if_neg close]
    exact .inr ⟨close, rfl⟩

/-! ## Words that draw a given number -/

/-- The least half word whose product with `n` has the upper half `i`. -/
def aim (n i : ℕ) : UInt64 := UInt64.ofNat ((i * 2 ^ 32 + (n - 1)) / n)

section Aimed

variable {n i : ℕ} {w : Words}

/-- The product with `n` is then less than `n` above the least with that upper half. -/
theorem low_mul_of_aim (small : i < n) (bound : n < 2 ^ 32) (aimed : w.word = aim n i) :
    w.low * n / 2 ^ 32 = i ∧ w.low * n % 2 ^ 32 < n := by
  have pos : 0 < n := Nat.zero_lt_of_lt small
  have half : (i * 2 ^ 32 + (n - 1)) / n < 2 ^ 32 := by
    rw [Nat.div_lt_iff_lt_mul pos]
    have last : i * 2 ^ 32 ≤ (n - 1) * 2 ^ 32 := Nat.mul_le_mul_right _ (by omega)
    omega
  have low_eq : w.low = (i * 2 ^ 32 + (n - 1)) / n := by
    have fits : (i * 2 ^ 32 + (n - 1)) / n < UInt64.size := half.trans (by decide)
    rw [low, aimed, aim, UInt64.toNat_ofNat_of_lt' fits, twoTo_eq]
    exact Nat.mod_eq_of_lt half
  have split := Nat.div_add_mod (i * 2 ^ 32 + (n - 1)) n
  have rest := Nat.mod_lt (i * 2 ^ 32 + (n - 1)) pos
  rw [← low_eq, Nat.mul_comm] at split
  constructor
  · omega
  · omega

/-- The word draws its number if the word after it carries nothing. -/
theorem below_of_aim (small : i < n) (bound : n < 2 ^ 32) (aimed : w.word = aim n i)
    (still : w.next.word = 0) : (w.below n).1 = i := by
  obtain ⟨upper, -⟩ := low_mul_of_aim small bound aimed
  have nothing : w.next.low = 0 := by
    rw [low, still]
    rfl
  have part : w.low * n % twoTo 32 < twoTo 32 := Nat.mod_lt _ (by decide)
  simp only [below, nothing, Nat.zero_mul, Nat.zero_div, Nat.add_zero]
  rw [if_neg (Nat.not_le.mpr part), twoTo_eq, upper]
  split
  · rfl
  · rfl

/-- For a small `n` no other word is looked at. -/
theorem below_of_aim_of_le (small : i < n) (few : n ≤ 2 ^ 31) (aimed : w.word = aim n i) :
    w.below n = (i, w.next) := by
  obtain ⟨upper, rest⟩ := low_mul_of_aim small (by omega) aimed
  have far : ¬ twoTo 32 - n < w.low * n % twoTo 32 := by
    rw [twoTo_eq]
    omega
  simp only [below]
  rw [if_neg far, twoTo_eq, upper]

end Aimed

/-! ## Several numbers -/

section Many

variable {n : ℕ}

theorem manyBelow_succ (n k : ℕ) (w : Words) :
    w.manyBelow n (k + 1) = ((w.below n).1 :: ((w.below n).2.manyBelow n k).1,
      ((w.below n).2.manyBelow n k).2) := rfl

theorem length_manyBelow (n k : ℕ) (w : Words) : (w.manyBelow n k).1.length = k := by
  induction k generalizing w with
  | zero => rfl
  | succ k ih => rw [manyBelow_succ, List.length_cons, ih]

theorem manyBelow_lt (pos : 0 < n) (k : ℕ) (w : Words) : ∀ i ∈ (w.manyBelow n k).1, i < n := by
  induction k generalizing w with
  | zero => exact List.forall_mem_nil _
  | succ k ih => exact List.forall_mem_cons.mpr ⟨below_lt pos w, ih _⟩

/-- Every number takes one word or two. -/
theorem words_manyBelow (n k : ℕ) (w : Words) :
    (w.manyBelow n k).2.stream = w.stream ∧ w.used + k ≤ (w.manyBelow n k).2.used ∧
      (w.manyBelow n k).2.used ≤ w.used + 2 * k := by
  induction k generalizing w with
  | zero => exact ⟨rfl, le_rfl, le_rfl⟩
  | succ k ih =>
    obtain ⟨stream, least, most⟩ := ih (w.below n).2
    show ((w.below n).2.manyBelow n k).2.stream = w.stream ∧
      w.used + (k + 1) ≤ ((w.below n).2.manyBelow n k).2.used ∧
      ((w.below n).2.manyBelow n k).2.used ≤ w.used + 2 * (k + 1)
    rcases words_below n w with ⟨-, two⟩ | ⟨-, one⟩
    · rw [two] at stream least most ⊢
      simp only [next] at stream least most ⊢
      exact ⟨stream, by omega, by omega⟩
    · rw [one] at stream least most ⊢
      simp only [next] at stream least most ⊢
      exact ⟨stream, by omega, by omega⟩

/-- Of a small `n` any numbers are drawn by the words that are aimed at them. -/
theorem manyBelow_of_aim (few : n ≤ 2 ^ 31) {is : List ℕ} (small : ∀ i ∈ is, i < n) {w : Words}
    (aimed : ∀ k i, is[k]? = some i → w.stream (w.used + k) = aim n i) :
    (w.manyBelow n is.length).1 = is := by
  induction is generalizing w with
  | nil => rfl
  | cons i is ih =>
    obtain ⟨first, later⟩ := List.forall_mem_cons.mp small
    have drawn : w.below n = (i, w.next) := below_of_aim_of_le first few (aimed 0 i rfl)
    have rest := @ih later w.next fun k j found => by
      have place : w.used + (k + 1) = w.used + 1 + k := by omega
      have word := aimed (k + 1) j found
      rw [place] at word
      exact word
    rw [List.length_cons, manyBelow_succ, drawn, rest]

end Many

end Words

end GuideRig
