/-
# GuideRig.Proofs.Json.Literal -- whole numbers of any length

A literal is evaluated in 64 bits, and one that does not fit becomes a double or is out of range. Neither of
these is a whole number, so that where a range within 64 bits is asked for the outcome is the same as if the
number had been computed exactly and then compared with the range (`accept_number`): nothing wraps around
and nothing is rounded into the range.
-/

import GuideRig.Proofs.Json.Meaning
import GuideRig.Proofs.Json.Number
import GuideRig.Proofs.Text.Span

namespace GuideRig.Json

open Ascii

/-- Every number of a range fits 64 bits, with a sign if it is negative. -/
def WholeRange.Fits (range : WholeRange) : Prop :=
  -(twoTo 63 : Int) ≤ range.low ∧ range.high < (twoTo 64 : Int)

/-! ## Digits -/

namespace Number

/-- Digits are left over when their number does not fit. -/
theorem valueFrom_lt_of_takeDigits {s : Nat} {ds : Bytes} (digits : ∀ d ∈ ds, isDigit d = true)
    (small : s < wordLimit) (none_left : (takeDigits s ds).2 = 0) : valueFrom 10 s ds < wordLimit := by
  induction ds generalizing s with
  | nil => exact small
  | cons d ds ih =>
    obtain ⟨first, later⟩ := List.forall_mem_cons.mp digits
    rw [takeDigits] at none_left
    rw [valueFrom_cons first]
    by_cases fits : s * 10 + (d.toNat - (byte '0').toNat) < wordLimit
    · rw [if_pos fits] at none_left
      exact ih later fits none_left
    · rw [if_neg fits] at none_left
      cases none_left

/-- The whole number that a number is. -/
def whole? : Number → Option Int
  | whole v => some v
  | decimal _ _ => none

/-- A literal is a whole number only if it has nothing but a sign and digits, and these fit. -/
theorem whole?_ofLiteral (l : Literal) :
    (ofLiteral l).toOption.bind whole? =
      if l.fraction.isNone ∧ l.exponent.isNone ∧ (takeDigits 0 l.integer).2 = 0 then
        if l.negative then
          if 1 ≤ (takeDigits 0 l.integer).1 ∧ (takeDigits 0 l.integer).1 ≤ twoTo 63 then
            some (-((takeDigits 0 l.integer).1 : Int))
          else none
        else some ((takeDigits 0 l.integer).1 : Int)
      else none := by
  unfold ofLiteral
  split
  next s unread taken =>
    rw [taken]
    by_cases plain : l.fraction.isNone ∧ l.exponent.isNone ∧ unread = 0
    · have plainly : (l.fraction.isNone && l.exponent.isNone && unread = 0) = true := by
        simpa [and_assoc] using plain
      simp only [if_pos plain, if_pos plainly]
      cases l.negative with
      | false => rfl
      | true =>
        simp only [Bool.not_true, Bool.false_eq_true, if_false, if_true, Bool.and_eq_true,
          decide_eq_true_eq]
        split <;> rfl
    · have marked : ¬ (l.fraction.isNone && l.exponent.isNone && unread = 0) = true := by
        simpa [and_assoc] using plain
      simp only [if_neg plain, if_neg marked]
      split
      · split <;> rfl
      · split <;> split <;> rfl

end Number

/-! ## Literals -/

/-- What follows the digits before the point, if anything does. -/
def IsMarked (s : Bytes) : Prop :=
  ∃ fraction exponent, s = fraction ++ exponent ∧ IsFraction fraction ∧ IsExponent exponent ∧ s ≠ []

theorem IsMarked.exists_cons {s : Bytes} (h : IsMarked s) :
    ∃ b e t, s = b :: e :: t ∧ isDigit b = false ∧ b ≠ byte '-' := by
  obtain ⟨fraction, exponent, rfl, isFraction, isExponent, more⟩ := h
  rcases isFraction with rfl | ⟨ds, rfl, some_digit, -⟩
  · rcases isExponent with rfl | ⟨mark, sign, ds, rfl, isMark, -, some_digit, -⟩
    · exact absurd rfl more
    · obtain ⟨e, t, form⟩ := List.exists_cons_of_ne_nil (List.append_ne_nil_of_right_ne_nil sign some_digit)
      rw [List.nil_append, List.cons_append, form]
      rcases isMark with rfl | rfl
      all_goals exact ⟨_, e, t, rfl, rfl, by decide⟩
  · obtain ⟨e, t, rfl⟩ := List.exists_cons_of_ne_nil some_digit
    exact ⟨_, e, t ++ exponent, rfl, rfl, by decide⟩

/-- A number is a sign and digits, and perhaps a fraction and an exponent. -/
theorem IsNumber.cases {s : Bytes} (h : IsNumber s) :
    ∃ sign ds rest, s = sign ++ ds ++ rest ∧ (sign = [] ∨ sign = [byte '-']) ∧ IsWhole ds ∧
      (rest = [] ∨ IsMarked rest) := by
  obtain @⟨sign, ds, fraction, exponent, isSign, isWhole, isFraction, isExponent⟩ := h
  refine ⟨sign, ds, fraction ++ exponent, by simp only [List.append_assoc], isSign, isWhole, ?_⟩
  by_cases more : fraction ++ exponent = []
  · exact .inl more
  · exact .inr ⟨fraction, exponent, rfl, isFraction, isExponent, more⟩

section Parts

variable {ds rest : Bytes}

theorem all_isDigit_of_isMarked (h : IsMarked rest) (s : Bytes) : (s ++ rest).all isDigit = false := by
  obtain ⟨b, e, t, rfl, other, -⟩ := h.exists_cons
  simp [other]

/-- A literal with a fraction or an exponent writes no whole number. -/
theorem whole?_of_isMarked (h : IsMarked rest) (s : Bytes) : whole? (s ++ rest) = none := by
  have unsigned (b : UInt8) (s : Bytes) (other : b ≠ byte '-') (not_all : (b :: s).all isDigit = false) :
      whole? (b :: s) = none := by
    rw [whole?, if_neg other, if_neg (by rw [not_all]; decide)]
  cases s with
  | nil =>
    obtain ⟨b, e, t, form, -, other⟩ := h.exists_cons
    have not_all := all_isDigit_of_isMarked h []
    rw [List.nil_append, form] at not_all ⊢
    exact unsigned b (e :: t) other not_all
  | cons b s =>
    rw [List.cons_append]
    by_cases minus : b = byte '-'
    · rw [whole?, if_pos minus, if_neg fun all => by simp [all_isDigit_of_isMarked h s] at all]
    · exact unsigned b (s ++ rest) minus (all_isDigit_of_isMarked h (b :: s))

theorem dropWhile_isDigit_append (h : IsMarked rest) (digits : ∀ d ∈ ds, isDigit d = true) :
    (ds ++ rest).dropWhile isDigit = rest := by
  obtain ⟨b, e, t, rfl, other, -⟩ := h.exists_cons
  exact dropWhile_part digits (stops_cons other (e :: t))

/-- The parts of a literal with a fraction or an exponent include one of them. -/
theorem ofBytes_of_isMarked (h : IsMarked rest) {sign : Bytes} (isSign : sign = [] ∨ sign = [byte '-'])
    (some_digit : ds ≠ []) (digits : ∀ d ∈ ds, isDigit d = true) :
    ¬ ((Literal.ofBytes (sign ++ ds ++ rest)).fraction.isNone ∧
      (Literal.ofBytes (sign ++ ds ++ rest)).exponent.isNone) := by
  have left := dropWhile_isDigit_append h digits
  obtain ⟨d, ds, rfl⟩ := List.exists_cons_of_ne_nil some_digit
  have unsigned : d ≠ byte '-' := ne_of_isDigit (digits d List.mem_cons_self) rfl
  obtain ⟨b, e, t, rfl, -, -⟩ := h.exists_cons
  rw [List.cons_append] at left
  -- the sign plays no part in what comes after the digits
  rcases isSign with rfl | rfl <;>
    simp only [List.nil_append, List.cons_append, Literal.ofBytes, if_neg unsigned, if_pos, left]
  all_goals
    by_cases point : b = byte '.'
    · simp [point]
    · rw [if_neg point]
      dsimp only
      split
      · simp
      · split <;> simp

end Parts

/-- The first digit of a whole part is zero only if there is no other. -/
theorem IsWhole.value_pos {ds : Bytes} (h : IsWhole ds) (other : ds ≠ [byte '0']) : 0 < value ds := by
  obtain ⟨⟨some_digit, digits⟩, leading⟩ := h
  obtain ⟨d, ds, rfl⟩ := List.exists_cons_of_ne_nil some_digit
  have digit := digits d List.mem_cons_self
  have first : d ≠ byte '0' := by
    rintro rfl
    exact other (leading rfl)
  have positive : 0 < d.toNat - (byte '0').toNat := by
    have low := (isDigit_iff.mp digit).1
    have zero : (byte '0').toNat = 48 := rfl
    have apart : d.toNat ≠ (byte '0').toNat := fun same => first (UInt8.toNat_inj.mp same)
    omega
  rw [value, valueFrom_cons digit, Nat.zero_mul, Nat.zero_add]
  exact Nat.lt_of_lt_of_le positive (le_valueFrom (by decide) _ ds)

/-! ## What a shape takes a literal for -/

theorem accept_number_eq (range : WholeRange) (literal : Bytes) :
    ((Shape.whole range).accept (.number literal)).toOption =
      ((Number.ofLiteral (Literal.ofBytes literal)).toOption.bind Number.whole?).bind range.datum? := by
  cases out : Number.ofLiteral (Literal.ofBytes literal) with
  | error back =>
    simp only [Shape.accept, Scalar.found, out]
    rfl
  | ok n =>
    cases n with
    | decimal negative v =>
      simp only [Shape.accept, Scalar.found, out]
      rfl
    | whole v =>
      simp only [Shape.accept, Scalar.found, out, Except.toOption, Option.bind_some, Number.whole?,
        WholeRange.datum?, Bool.and_eq_true, decide_eq_true_eq]
      by_cases inside : range.low ≤ v ∧ v ≤ range.high
      · rw [if_pos inside, if_pos inside]
      · rw [if_neg inside, if_neg inside]

theorem WholeRange.datum?_of_not {range : WholeRange} {v : Int} (h : ¬ (range.low ≤ v ∧ v ≤ range.high)) :
    range.datum? v = none := if_neg h

/-- Digits are evaluated exactly, or they write a number that no range holds. -/
theorem accept_digits {range : WholeRange} (fits : range.Fits) {ds : Bytes} (isWhole : IsWhole ds) :
    ((Shape.whole range).accept (.number ds)).toOption = range.datum? (value ds) := by
  obtain ⟨some_digit, digits⟩ := isWhole.1
  rw [accept_number_eq, ofBytes_digits some_digit digits, Number.whole?_ofLiteral]
  by_cases small : value ds < Number.wordLimit
  · have taken : Number.takeDigits 0 ds = (value ds, 0) := Number.takeDigits_of_lt digits small
    simp only [taken, Option.isNone_none, and_self, if_true, Bool.false_eq_true, if_false, Option.bind_some]
  · have unread : (Number.takeDigits 0 ds).2 ≠ 0 := fun none_left =>
      small (Number.valueFrom_lt_of_takeDigits digits (by decide) none_left)
    have large : (twoTo 64 : Int) ≤ value ds := by exact_mod_cast Nat.not_lt.mp small
    rw [if_neg fun plain => unread plain.2.2, Option.bind_none, WholeRange.datum?_of_not]
    rintro ⟨-, high⟩
    have most := fits.2
    omega

/-- After a minus sign too, zero apart. -/
theorem accept_minus {range : WholeRange} (fits : range.Fits) {ds : Bytes} (isWhole : IsWhole ds) :
    ((Shape.whole range).accept (.number (byte '-' :: ds))).toOption =
      if ds = [byte '0'] then none else range.datum? (-(value ds : Int)) := by
  obtain ⟨some_digit, digits⟩ := isWhole.1
  have signed : (twoTo 63 : Int) = 9223372036854775808 := rfl
  have unsigned : (twoTo 64 : Int) = 18446744073709551616 := rfl
  obtain ⟨least, most⟩ := fits
  rw [accept_number_eq, ofBytes_minus digits, Number.whole?_ofLiteral]
  by_cases small : value ds < Number.wordLimit
  · have taken : Number.takeDigits 0 ds = (value ds, 0) := Number.takeDigits_of_lt digits small
    simp only [taken, Option.isNone_none, and_self, if_true]
    by_cases zero : ds = [byte '0']
    · rw [if_pos zero, zero]
      rfl
    · have positive := isWhole.value_pos zero
      rw [if_neg zero]
      by_cases fits : value ds ≤ twoTo 63
      · rw [if_pos ⟨positive, fits⟩, Option.bind_some]
      · have large : (twoTo 63 : Int) < value ds := by exact_mod_cast Nat.not_le.mp fits
        rw [if_neg fun inside => fits inside.2, Option.bind_none, WholeRange.datum?_of_not]
        rintro ⟨low, -⟩
        omega
  · have unread : (Number.takeDigits 0 ds).2 ≠ 0 := fun none_left =>
      small (Number.valueFrom_lt_of_takeDigits digits (by decide) none_left)
    have large : (twoTo 64 : Int) ≤ value ds := by exact_mod_cast Nat.not_lt.mp small
    have other : ds ≠ [byte '0'] := by
      rintro rfl
      exact small (by decide)
    rw [if_neg fun plain => unread plain.2.2, if_neg other, Option.bind_none, WholeRange.datum?_of_not]
    rintro ⟨low, -⟩
    omega

theorem whole?_digits {ds : Bytes} (h : IsDigits ds) : whole? ds = some (value ds : Int) := by
  obtain ⟨some_digit, digits⟩ := h
  obtain ⟨d, ds, rfl⟩ := List.exists_cons_of_ne_nil some_digit
  have unsigned : d ≠ byte '-' := ne_of_isDigit (digits d List.mem_cons_self) rfl
  rw [whole?, if_neg unsigned, if_pos (List.all_eq_true.mpr digits)]

theorem whole?_minus {ds : Bytes} (h : IsDigits ds) :
    whole? (byte '-' :: ds) = if ds = [byte '0'] then none else some (-(value ds : Int)) := by
  have digits := List.all_eq_true.mpr h.2
  rw [whole?, if_pos rfl]
  by_cases zero : ds = [byte '0']
  · rw [if_pos zero, if_neg fun other => other.2 zero]
  · rw [if_neg zero, if_pos ⟨digits, zero⟩]

/-- A literal of digits alone, perhaps after a minus sign, and the number that it writes. No zero leads the
digits, and `-0` is none. -/
inductive IsInteger : Bytes → Int → Prop
  | unsigned {ds : Bytes} : IsWhole ds → IsInteger ds (value ds)
  | minus {ds : Bytes} : IsWhole ds → ds ≠ [byte '0'] → IsInteger (byte '-' :: ds) (-(value ds))

theorem IsInteger.isNumber {literal : Bytes} {v : Int} (h : IsInteger literal v) : IsNumber literal := by
  cases h with
  | unsigned isWhole =>
    have number := IsNumber.mk (.inl rfl) isWhole (.inl rfl) (.inl rfl)
    rw [List.nil_append, List.append_nil, List.append_nil] at number
    exact number
  | minus isWhole _ =>
    have number := IsNumber.mk (.inr rfl) isWhole (.inl rfl) (.inl rfl)
    rw [List.append_nil, List.append_nil] at number
    exact number

theorem IsInteger.whole? {literal : Bytes} {v : Int} (h : IsInteger literal v) :
    whole? literal = some v := by
  cases h with
  | unsigned isWhole => exact whole?_digits isWhole.1
  | minus isWhole other => rw [whole?_minus isWhole.1, if_neg other]

/-- A literal with a fraction or an exponent, whatever its value. -/
def IsDecimal (literal : Bytes) : Prop :=
  ∃ sign ds rest, literal = sign ++ ds ++ rest ∧ (sign = [] ∨ sign = [byte '-']) ∧ IsWhole ds ∧
    IsMarked rest

theorem IsDecimal.isNumber {literal : Bytes} (h : IsDecimal literal) : IsNumber literal := by
  obtain ⟨sign, ds, _, rfl, isSign, isWhole, fraction, exponent, rfl, isFraction, isExponent, -⟩ := h
  rw [← List.append_assoc]
  exact .mk isSign isWhole isFraction isExponent

theorem IsDecimal.whole? {literal : Bytes} (h : IsDecimal literal) : whole? literal = none := by
  obtain ⟨sign, ds, rest, rfl, -, -, marked⟩ := h
  exact whole?_of_isMarked marked (sign ++ ds)

/-- A number is taken for the whole number that its literal writes, if that is in the range asked for. -/
theorem accept_number {range : WholeRange} (fits : range.Fits) {literal : Bytes} (h : IsNumber literal) :
    ((Shape.whole range).accept (.number literal)).toOption = (whole? literal).bind range.datum? := by
  obtain ⟨sign, ds, rest, rfl, isSign, isWhole, rfl | marked⟩ := h.cases
  · rw [List.append_nil]
    rcases isSign with rfl | rfl
    · rw [List.nil_append, accept_digits fits isWhole, whole?_digits isWhole.1, Option.bind_some]
    · rw [List.singleton_append, accept_minus fits isWhole, whole?_minus isWhole.1]
      split <;> rfl
  · rw [accept_number_eq, Number.whole?_ofLiteral, whole?_of_isMarked marked, if_neg]
    rintro ⟨fraction, exponent, -⟩
    exact ofBytes_of_isMarked marked isSign isWhole.1.1 isWhole.1.2 ⟨fraction, exponent⟩

end GuideRig.Json
