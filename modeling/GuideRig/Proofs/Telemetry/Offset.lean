/-
# GuideRig.Proofs.Telemetry.Offset -- the offset of an event never passes its window

The offset of an event is computed in doubles: seconds and nanoseconds are converted and added, the
sum is multiplied by a random fraction, and the product is brought to whole nanoseconds. Any of these
roundings may go up. `IsOffset` states the computation over the rationals with one `RoundsTo` for each
of them, and `IsOffset.le` shows that the offset never passes the window all the same.

The argument does not add up errors. A double above the exact length of the window is not below the
computed length (`seconds_le`), while the product with a fraction below one is a double strictly below
the computed length (`RoundsTo.mul_fraction_lt`); so the product is not above the exact length.
-/

import GuideRig.Proofs.Number.Nearest
import GuideRig.Telemetry.Batch

namespace GuideRig

/-! ## Spans of time -/

namespace Duration

theorem nanos_lt (d : Duration) : d.nanos.val < 10 ^ 9 := d.nanos.isLt

/-- The length in seconds, exactly. -/
theorem nanoseconds_eq (d : Duration) :
    (d.nanoseconds : ℚ) = (d.secs.toNat + d.nanos.val / 10 ^ 9) * 10 ^ 9 := by
  simp only [nanoseconds, perSecond]
  push_cast
  ring

theorem nanoseconds_div_lt (d : Duration) : d.nanoseconds / perSecond < twoTo 64 := by
  have secs := d.secs.toNat_lt
  have nanos := d.nanos_lt
  simp only [nanoseconds, perSecond, twoTo_eq]
  omega

/-- A number of nanoseconds that fits is the length of its span. -/
theorem exists_ofNanoseconds? {n : ℕ} (h : n / perSecond < twoTo 64) :
    ∃ d, ofNanoseconds? n = some d ∧ d.nanoseconds = n := by
  refine ⟨_, if_pos h, ?_⟩
  have secs : (n / perSecond).toUInt64.toNat = n / perSecond := UInt64.toNat_ofNat_of_lt' h
  simp only [nanoseconds, secs]
  exact Nat.div_add_mod n perSecond

/-- A reading from which a time stamp can still be told is held exactly. -/
theorem nanoseconds_sinceEpoch {now : Instant} (h : now.toNat / perSecond < twoTo 64) :
    (sinceEpoch now).nanoseconds = now.toNat := by
  obtain ⟨d, some_d, length⟩ := exists_ofNanoseconds? h
  rw [sinceEpoch, some_d, Option.getD_some, length]

/-- Any other reading counts as the longest span. -/
theorem le_nanoseconds_sinceEpoch {now : Instant} (h : ¬ now.toNat / perSecond < twoTo 64) :
    twoTo 63 * 1000000 ≤ (sinceEpoch now).nanoseconds := by
  rw [sinceEpoch, ofNanoseconds?, if_neg h]
  decide

/-- The length as it is computed: both parts converted, the nanoseconds divided, and the sum. -/
theorem roundsTo_seconds (d : Duration) :
    ∃ s f : ℚ, RoundsTo d.secs.toNat s ∧ RoundsTo ((d.nanos.val : ℚ) / 10 ^ 9) f ∧
      RoundsTo (s + f) d.seconds.value := by
  refine ⟨_, _, Binary64.roundsTo_ofNat _, ?_, Binary64.roundsTo_add _ _⟩
  have nanos := Binary64.value_ofNat (n := d.nanos.val) (by have := d.nanos_lt; omega)
  have second := Binary64.value_ofNat (n := perSecond) (by simp only [perSecond]; omega)
  have h := Binary64.roundsTo_div (Binary64.ofNat d.nanos.val) (Binary64.ofNat perSecond)
    (Binary64.units_pos (by rw [second]; norm_num [perSecond]))
  rw [nanos, second] at h
  exact_mod_cast h

end Duration

/-! ## Offsets -/

/-- A double above the exact sum of whole seconds and a fraction is not below the computed sum. -/
theorem seconds_le {n : ℕ} {q s f w v : ℚ} (hq0 : 0 ≤ q) (hq : q ≤ (2 ^ 53 - 1 : ℕ) / 2 ^ 53)
    (hs : RoundsTo n s) (hf : RoundsTo q f) (hw : RoundsTo (s + f) w) (hv : IsDouble v)
    (above : n + q < v) : w ≤ v := by
  have largest : IsDouble ((2 ^ 53 - 1 : ℕ) / 2 ^ 53) := by
    obtain ⟨e, he, one_eq⟩ := Binary64.one_eq
    have h := IsDouble.of_units (e - 53) (show 2 ^ 53 - 1 ≤ 2 ^ 53 by omega)
    rw [one_eq, show e = e - 53 + 53 by omega, pow_add, Nat.add_sub_cancel,
      mul_comm (2 ^ (e - 53)), mul_div_mul_right _ _ (by positivity)] at h
    exact h
  have f_lt : f < 1 := lt_of_le_of_lt (hf.le_of_le largest hq) (by norm_num)
  rcases Nat.lt_or_ge n (2 ^ 53) with small | large
  · -- the seconds are exact, and so is what `v` has beyond them
    rw [hs.eq_of_isDouble (IsDouble.natCast small.le)] at hw
    rcases lt_or_ge v (n + 1) with inside | outside
    · have rest := hv.sub_natCast (by linarith) inside
      have := hf.le_of_le rest (by linarith)
      exact hw.le_of_le hv (by linarith)
    · exact hw.le_of_le hv (by linarith)
  · -- doubles are even numbers here, so a fraction moves nothing
    have n_large : (2 : ℚ) ^ 53 ≤ n := by exact_mod_cast large
    have s_large : (2 : ℚ) ^ 53 ≤ s :=
      hs.le_of_ge (by exact_mod_cast IsDouble.natCast (n := 2 ^ 53) le_rfl) n_large
    have s_le : s ≤ v := hs.le_of_le hv (by linarith)
    obtain ⟨a, rfl⟩ := hs.isDouble.even_of_large s_large
    obtain ⟨b, rfl⟩ := hv.even_of_large (by linarith)
    rcases s_le.lt_or_eq with apart | same
    · have : (a : ℚ) + 1 ≤ b := by exact_mod_cast (by linarith : (a : ℚ) < b)
      exact hw.le_of_le hv (by linarith)
    · by_contra passed
      obtain ⟨c, rfl⟩ := hw.isDouble.even_of_large (by linarith)
      have : (b : ℚ) + 1 ≤ c := by exact_mod_cast (by linarith : (b : ℚ) < c)
      have near := hw.nearest _ hv
      rw [same, abs_of_nonpos (by linarith), add_sub_cancel_left,
        abs_of_nonneg hf.isDouble.nonneg] at near
      linarith

namespace Words

/-- The fraction that a word stands for. -/
def fractionOf (word : UInt64) : Binary64 := ⟨twoTo 1021 * (word.toNat / twoTo 11)⟩

theorem fraction_eq (w : Words) : w.fraction = (fractionOf w.word, w.next) := rfl

theorem value_fractionOf (word : UInt64) :
    (fractionOf word).value = (word >>> 11).toNat / 2 ^ 53 := by
  have shifted : (word >>> 11).toNat = word.toNat / twoTo 11 := by
    rw [UInt64.toNat_shiftRight, Nat.shiftRight_eq_div_pow]
    rfl
  have one_eq : Binary64.one = twoTo 1021 * twoTo 53 := twoTo_add 1021 53
  have pos : (twoTo 1021 : ℚ) ≠ 0 := by
    rw [cast_twoTo]
    exact pow_ne_zero _ (by norm_num)
  rw [shifted, Binary64.value, one_eq, fractionOf]
  push_cast
  rw [mul_div_mul_left _ _ pos, cast_twoTo 53]

theorem shift_lt (word : UInt64) : (word >>> 11).toNat < 2 ^ 53 := by
  have h := word.toNat_lt
  rw [UInt64.toNat_shiftRight, Nat.shiftRight_eq_div_pow]
  exact Nat.div_lt_of_lt_mul (by simpa using h)

end Words

namespace Batch

/-- How a random word places an event in a window: its seconds and its nanoseconds over `10^9` are
converted, and their sum is multiplied by the upper 53 bits of the word over `2^53`, each result being
rounded to a double; the product in seconds is then brought to whole nanoseconds. -/
def IsOffset (window : Duration) (word : UInt64) (ns : ℕ) : Prop :=
  ∃ s f w p : ℚ, RoundsTo window.secs.toNat s ∧ RoundsTo ((window.nanos.val : ℚ) / 10 ^ 9) f ∧
    RoundsTo (s + f) w ∧ RoundsTo (w * ((word >>> 11).toNat / 2 ^ 53)) p ∧
    NearestWhole (p * 10 ^ 9) ns

/-- A double that is below every span of at least a nanosecond and is not among the smallest. -/
theorem exists_tick : ∃ t, IsDouble t ∧ 2 ^ 53 / Binary64.one ≤ t ∧ t ≤ 1 / 10 ^ 9 := by
  obtain ⟨e, he, one_eq⟩ := Binary64.one_eq
  refine ⟨_, IsDouble.of_units (m := 1) (e - 30) (by norm_num), ?_, ?_⟩
  · refine div_le_div_of_nonneg_right ?_ Binary64.one_pos.le
    rw [Nat.cast_one, one_mul]
    exact pow_le_pow_right₀ (by norm_num) (by omega)
  · rw [one_eq, show e = e - 30 + 30 by omega, pow_add, Nat.add_sub_cancel, Nat.cast_one,
      mul_comm (2 ^ (e - 30)), mul_div_mul_right _ _ (by positivity)]
    norm_num

/-- The computed length of a span that is not empty is not among the smallest doubles. -/
theorem tick_le {n k : ℕ} {s f w t : ℚ} (hs : RoundsTo n s) (hf : RoundsTo ((k : ℚ) / 10 ^ 9) f)
    (hw : RoundsTo (s + f) w) (ht : IsDouble t) (small : t ≤ 1 / 10 ^ 9) (some : 0 < n ∨ 0 < k) :
    t ≤ w := by
  refine hw.le_of_ge ht ?_
  rcases some with seconds | nanos
  · have one_le : (1 : ℕ) ≤ (n : ℚ) := by exact_mod_cast seconds
    have := hs.le_of_ge (IsDouble.natCast (n := 1) (by norm_num)) one_le
    have := hf.isDouble.nonneg
    push_cast at *
    linarith
  · have one_le : (1 : ℚ) ≤ k := by exact_mod_cast nanos
    have := hf.le_of_ge ht (small.trans (by linarith))
    have := hs.isDouble.nonneg
    linarith

/-- The offset never passes the window. -/
theorem IsOffset.le {window : Duration} {word : UInt64} {ns : ℕ} (h : IsOffset window word ns) :
    ns ≤ window.nanoseconds := by
  obtain ⟨s, f, w, p, hs, hf, hw, hp, hns⟩ := h
  refine hns.le_of_le ?_
  rw [Duration.nanoseconds_eq]
  refine mul_le_mul_of_nonneg_right ?_ (by norm_num)
  by_contra above
  rw [not_le] at above
  have nanos : (window.nanos.val : ℚ) ≤ 10 ^ 9 - 1 := by
    have := window.nanos_lt
    have : ((window.nanos.val + 1 : ℕ) : ℚ) ≤ 10 ^ 9 := by exact_mod_cast this
    push_cast at this
    linarith
  have w_le_p : w ≤ p := by
    refine seconds_le (by positivity) ?_ hs hf hw hp.isDouble above
    push_cast
    linarith
  have some : 0 < window.secs.toNat ∨ 0 < window.nanos.val := by
    -- every step of the computation keeps a length of zero
    by_contra none
    simp only [not_or, Nat.not_lt, Nat.le_zero] at none
    have zero : IsDouble 0 := by exact_mod_cast IsDouble.natCast (n := 0) (Nat.zero_le _)
    have s_le := hs.le_of_le zero (by simp [none.1])
    have f_le := hf.le_of_le zero (by simp [none.2])
    have w_le := hw.le_of_le zero (by linarith)
    have p_le := hp.le_of_le zero (mul_nonpos_of_nonpos_of_nonneg w_le (by positivity))
    have : (0 : ℚ) ≤ window.secs.toNat + window.nanos.val / 10 ^ 9 := by positivity
    linarith
  obtain ⟨t, isDouble_t, normal_t, small_t⟩ := exists_tick
  have t_le_w := tick_le hs hf hw isDouble_t small_t some
  have := hp.mul_fraction_lt hw.isDouble (normal_t.trans t_le_w) (Words.shift_lt word)
  linarith

end Batch

end GuideRig
