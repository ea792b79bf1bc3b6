/-
# GuideRig.Proofs.Toml.Whole -- whole numbers are told from all that looks like them

A whole number is written in decimal, with or without a sign, or in one of three other bases, and between
its digits there may be underscores (`IsWhole`). Dates and times, numbers with a fraction and numbers in
words are tried before it. None of them is read from its text, for each of them needs a sign or a letter
that does not stand there: a date a dash behind its first digits, a time a colon, a fraction a point or an
exponent. So every whole number of 64 bits is read as the number that it writes (`IsWhole.read`).
-/

import GuideRig.Proofs.Text.Span
import GuideRig.Toml.Scalar

namespace GuideRig.Toml

variable {base d : Nat} {c : Char} {ds : List Nat} {s t r w rest : List Char} {negative : Bool}

/-! ## The end of a value -/

/-- What may come behind a value on its line: a blank, a comment, or the end of the line. -/
def EndsValue (s : List Char) : Prop := ∀ c ∈ s.head?, c ∈ [' ', '\t', '#', '\n', '\r']

/-- The end of a value is of no kind that has none of its signs. -/
theorem EndsValue.stops (ends : EndsValue s) {p : Char → Bool}
    (none_of_kind : ([' ', '\t', '#', '\n', '\r'].all fun c => !p c) = true) : Stops p s := by
  intro c first
  simpa using List.all_eq_true.mp none_of_kind c (ends c first)

theorem EndsValue.head?_ne (ends : EndsValue s) (other : c ∉ [' ', '\t', '#', '\n', '\r']) :
    s.head? ≠ some c := fun same => other (ends c same)

/-! ## Digits -/

/-- Further digits, each perhaps behind an underscore. -/
inductive IsMore (base : Nat) : List Nat → List Char → Prop
  | nil : IsMore base [] []
  | digit {c : Char} {d : Nat} {ds : List Nat} {w : List Char} : digitIn? base c = some d →
      IsMore base ds w → IsMore base (d :: ds) (c :: w)
  | spaced {c : Char} {d : Nat} {ds : List Nat} {w : List Char} : digitIn? base c = some d →
      IsMore base ds w → IsMore base (d :: ds) ('_' :: c :: w)

/-- At least one digit, and first of all a digit. -/
inductive IsDigits (base : Nat) : List Nat → List Char → Prop
  | mk {c : Char} {d : Nat} {ds : List Nat} {w : List Char} : digitIn? base c = some d →
      IsMore base ds w → IsDigits base (d :: ds) (c :: w)

/-- A character that goes on with a number. -/
def goesOn (base : Nat) (c : Char) : Bool := (digitIn? base c).isSome || c == '_'

/-- A character that is above all digits and letters of numbers is none of them. -/
theorem ne_of_digitIn? (digit : digitIn? base c = some d) (sign : Char) (none : digitIn? base sign = none) :
    c ≠ sign := by
  rintro rfl
  rw [none] at digit
  cases digit

theorem digitIn?_underscore (base : Nat) : digitIn? base '_' = none := if_neg (Nat.lt_irrefl base)

theorem moreDigits_part (h : IsMore base ds w) (stops : Stops (goesOn base) rest) :
    moreDigits base (w ++ rest) = (ds, rest) := by
  induction h with
  | nil =>
    cases rest with
    | nil => rfl
    | cons c rest =>
      have other := stops c rfl
      rw [goesOn, Bool.or_eq_false_iff, Option.isSome_eq_false_iff, Option.isNone_iff_eq_none,
        beq_eq_false_iff_ne] at other
      rw [List.nil_append]
      unfold moreDigits
      split
      · rename_i begins
        exact absurd (List.cons.inj begins).1 other.2
      · rename_i begins
        obtain ⟨rfl, rfl⟩ := List.cons.inj begins
        rw [other.1]
      · rename_i begins
        cases begins
  | @digit c d ds w digit _ ih =>
    have apart := ne_of_digitIn? digit '_' (digitIn?_underscore base)
    rw [List.cons_append]
    unfold moreDigits
    split
    · rename_i begins
      exact absurd (List.cons.inj begins).1 apart
    · rename_i begins
      obtain ⟨rfl, rfl⟩ := List.cons.inj begins
      rw [digit, ih]
    · rename_i begins
      cases begins
  | @spaced c d ds w digit _ ih =>
    rw [List.cons_append, List.cons_append, moreDigits, digit, ih]

theorem someDigits_part (h : IsDigits base ds w) (stops : Stops (goesOn base) rest) :
    someDigits base (w ++ rest) = some (ds, rest) := by
  cases h with
  | mk digit more =>
    rw [List.cons_append, someDigits, digit, Option.map_some, moreDigits_part more stops]

/-- A sign that no number goes on with does not stand in digits. -/
theorem IsMore.ne (h : IsMore base ds w) {sign : Char} (other : goesOn base sign = false) :
    ∀ c ∈ w, c ≠ sign := by
  rw [goesOn, Bool.or_eq_false_iff, Option.isSome_eq_false_iff, Option.isNone_iff_eq_none,
    beq_eq_false_iff_ne] at other
  induction h with
  | nil => exact List.forall_mem_nil _
  | digit digit _ ih => exact List.forall_mem_cons.mpr ⟨ne_of_digitIn? digit sign other.1, ih⟩
  | spaced digit _ ih =>
    exact List.forall_mem_cons.mpr ⟨other.2.symm,
      List.forall_mem_cons.mpr ⟨ne_of_digitIn? digit sign other.1, ih⟩⟩

theorem IsDigits.ne (h : IsDigits base ds w) {sign : Char} (other : goesOn base sign = false) :
    ∀ c ∈ w, c ≠ sign := by
  cases h with
  | mk digit more => exact (IsMore.digit digit more).ne other

/-! ## Whole numbers -/

/-- A sign in front of a number, or none. -/
inductive IsSign : Bool → List Char → Prop
  | none : IsSign false []
  | plus : IsSign false ['+']
  | minus : IsSign true ['-']

/-- The letters of the bases other than ten. -/
inductive IsBase : Char → Nat → Prop
  | hexadecimal : IsBase 'x' 16
  | octal : IsBase 'o' 8
  | binary : IsBase 'b' 2

/-- What a whole number of 64 bits is written as. In decimal no zero leads it. -/
inductive IsWhole : Int → List Char → Prop
  | decimal {negative : Bool} {sign w : List Char} {ds : List Nat} {v : Int} : IsSign negative sign →
      IsDigits 10 ds w → (w.head? = some '0' → w = ['0']) →
      v = (if negative then -(numberOf 10 ds : Int) else numberOf 10 ds) →
      -(twoTo 63 : Int) ≤ v → v < twoTo 63 → IsWhole v (sign ++ w)
  | based {letter : Char} {base : Nat} {w : List Char} {ds : List Nat} : IsBase letter base →
      IsDigits base ds w → numberOf base ds < twoTo 63 → IsWhole (numberOf base ds) ('0' :: letter :: w)

/-! ## What is tried before -/

/-- A number of a fixed length takes nothing but digits. -/
theorem dropWhile_of_readFixed {digits low high v : Nat} (read : readFixed digits low high s = some (v, r)) :
    s.dropWhile isDigit = r.dropWhile isDigit := by
  unfold readFixed at read
  dsimp only at read
  split at read
  · rename_i taken
    split at read
    · obtain ⟨-, rfl⟩ := Prod.mk.inj (Option.some.inj read)
      rw [Bool.and_eq_true, decide_eq_true_eq, List.all_eq_true] at taken
      calc s.dropWhile isDigit = (s.take digits ++ s.drop digits).dropWhile isDigit := by
            rw [List.take_append_drop]
        _ = (s.drop digits).dropWhile isDigit := List.dropWhile_append_of_pos taken.2
    · cases read
  · cases read

/-- A number of a fixed length begins with a digit. -/
theorem readFixed_of_stops {digits low high : Nat} (stops : Stops isDigit s) :
    readFixed (digits + 1) low high s = none := by
  cases s with
  | nil => rfl
  | cons c s =>
    have other := stops c rfl
    rw [readFixed, List.take_succ_cons, List.all_cons, other, Bool.false_and, Bool.and_false]
    rfl

theorem readChar_eq_some (h : readChar c s = some r) : s = c :: r := by
  cases s with
  | nil => cases h
  | cons d s =>
    rw [readChar] at h
    split at h
    · rename_i same
      rw [same, Option.some.inj h]
    · cases h

/-- Behind the first digits of a number that is followed by some sign stands that sign. -/
theorem head?_of_readFixed {digits low high v : Nat} (read : readFixed digits low high s = some (v, r))
    (sign : readChar c r = some t) (other : isDigit c = false) : (s.dropWhile isDigit).head? = some c := by
  rw [dropWhile_of_readFixed read, readChar_eq_some sign, List.dropWhile_cons_of_neg (ne_true_of_eq_false other)]
  rfl

/-- There is no moment without a digit at the front, or where the first digits are followed by neither a
dash nor a colon. -/
theorem readMoment_eq_none (h : Stops isDigit s ∨ (s.dropWhile isDigit).head? ≠ some '-' ∧
    (s.dropWhile isDigit).head? ≠ some ':') : readMoment s = none := by
  have date : readDate s = none := by
    unfold readDate
    cases year : readFixed 4 0 9999 s with
    | none => rfl
    | some p =>
      rcases h with stops | ⟨dash, -⟩
      · rw [readFixed_of_stops stops] at year
        cases year
      · cases sign : readChar '-' p.2 with
        | none => simp only [Option.bind_eq_bind, Option.bind_some, sign, Option.bind_none]
        | some t => exact absurd (head?_of_readFixed year sign rfl) dash
  have time : readTime s = none := by
    unfold readTime
    cases hour : readFixed 2 0 23 s with
    | none => rfl
    | some p =>
      rcases h with stops | ⟨-, colon⟩
      · rw [readFixed_of_stops stops] at hour
        cases hour
      · cases sign : readChar ':' p.2 with
        | none => simp only [Option.bind_eq_bind, Option.bind_some, sign, Option.bind_none]
        | some t => exact absurd (head?_of_readFixed hour sign rfl) colon
  rw [readMoment, date, time]
  rfl

/-- A number in words begins with a letter. -/
theorem readSpecial_eq_none (sign : readSign s = (negative, t)) (infinite : t.head? ≠ some 'i')
    (not_number : t.head? ≠ some 'n') : readSpecial s = none := by
  rw [readSpecial, sign]
  dsimp only
  split
  · exact absurd rfl infinite
  · exact absurd rfl not_number
  · rfl

/-- A number with a fraction has a point or an exponent behind its first digits. -/
theorem readDecimal_eq_none (sign : readSign s = (negative, t)) (digits : decimalDigits t = some (ds, r))
    (point : r.head? ≠ some '.') (small : r.head? ≠ some 'e') (capital : r.head? ≠ some 'E') :
    readDecimal s = none := by
  have fraction : readFraction r = none := by
    unfold readFraction
    split
    · exact absurd rfl point
    · rfl
  have exponent : readExponent r = none := by
    cases r with
    | nil => rfl
    | cons c r =>
      have letter : (c = 'e' || c = 'E') = false := by
        rw [decide_eq_false fun same => small (congrArg some same),
          decide_eq_false fun same => capital (congrArg some same)]
        rfl
      rw [readExponent, if_neg (ne_true_of_eq_false letter)]
  rw [readDecimal, sign]
  simp only [digits, fraction, exponent]

/-! ## Reading -/

theorem decimalDigits_part (h : IsDigits 10 ds w) (bare : w.head? = some '0' → w = ['0'])
    (stops : Stops (goesOn 10) rest) : decimalDigits (w ++ rest) = some (ds, rest) := by
  unfold decimalDigits
  split
  · rename_i r begins
    cases h with
    | @mk c d ds w digit more =>
      obtain ⟨rfl, behind⟩ := List.cons.inj begins
      obtain ⟨-, rfl⟩ := List.cons.inj (bare rfl)
      cases more
      cases digit
      rw [← behind]
      rfl
  · exact someDigits_part h stops

theorem readSign_part {sign : List Char} (h : IsSign negative sign) (digits : IsDigits base ds w) :
    readSign (sign ++ (w ++ rest)) = (negative, w ++ rest) := by
  cases h with
  | plus => rfl
  | minus => rfl
  | none =>
    cases digits with
    | @mk c d ds w digit more =>
      have minus := ne_of_digitIn? digit '-' (if_neg (Nat.lt_irrefl base))
      have plus := ne_of_digitIn? digit '+' (if_neg (Nat.lt_irrefl base))
      rw [List.nil_append, List.cons_append]
      unfold readSign
      split
      · rename_i begins
        exact absurd (List.cons.inj begins).1 minus
      · rename_i begins
        exact absurd (List.cons.inj begins).1 plus
      · rfl

/-- The letter of a base stands behind a zero, and nowhere else. -/
theorem readWhole_decimal {sign : List Char} {v : Int} (isSign : IsSign negative sign) (digits : IsDigits 10 ds w)
    (bare : w.head? = some '0' → w = ['0']) (ends : EndsValue rest)
    (value : v = (if negative then -(numberOf 10 ds : Int) else numberOf 10 ds))
    (low : -(twoTo 63 : Int) ≤ v) (high : v < twoTo 63) :
    readWhole (sign ++ (w ++ rest)) = some (.whole v, rest) := by
  have no_letter {letter : Char} {t : List Char} (other : letter ∉ [' ', '\t', '#', '\n', '\r'])
      (begins : sign ++ (w ++ rest) = '0' :: letter :: t) : False := by
    cases isSign with
    | plus => cases begins
    | minus => cases begins
    | none =>
      cases digits with
      | @mk c d ds w digit more =>
        obtain ⟨rfl, behind⟩ := List.cons.inj begins
        obtain ⟨-, rfl⟩ := List.cons.inj (bare rfl)
        exact ends.head?_ne other (congrArg List.head? behind)
  have fits : (decide (-(twoTo 63 : Int) ≤ v) && decide (v < twoTo 63)) = true := by
    rw [decide_eq_true low, decide_eq_true high]
    rfl
  unfold readWhole
  split
  · rename_i begins
    exact (no_letter (by decide) begins).elim
  · rename_i begins
    exact (no_letter (by decide) begins).elim
  · rename_i begins
    exact (no_letter (by decide) begins).elim
  · rw [readSign_part isSign digits]
    dsimp only
    rw [decimalDigits_part digits bare (ends.stops rfl)]
    dsimp only
    rw [← value, if_pos fits]

/-- A whole number is read as the number that it writes. -/
theorem IsWhole.read {v : Int} (h : IsWhole v w) (ends : EndsValue rest) :
    readScalar (w ++ rest) = some (.whole v, rest) := by
  have dash : rest.head? ≠ some '-' := ends.head?_ne (by decide)
  have colon : rest.head? ≠ some ':' := ends.head?_ne (by decide)
  have digit_stops : Stops isDigit rest := ends.stops rfl
  cases h with
  | @decimal negative sign w ds v isSign digits bare value low high =>
    have no_letter (letter : Char) (other : goesOn 10 letter = false) : (w ++ rest).head? ≠ some letter := by
      cases digits with
      | mk digit more =>
        exact fun same => (IsDigits.mk digit more).ne other _ List.mem_cons_self (Option.some.inj same)
    have moment : readMoment (sign ++ (w ++ rest)) = none := by
      apply readMoment_eq_none
      cases isSign with
      | none =>
        rw [List.nil_append]
        exact .inr ⟨head?_dropWhile_part (digits.ne rfl) digit_stops dash,
          head?_dropWhile_part (digits.ne rfl) digit_stops colon⟩
      | plus => exact .inl (stops_cons rfl _)
      | minus => exact .inl (stops_cons rfl _)
    have signs : readSign (sign ++ (w ++ rest)) = (negative, w ++ rest) := readSign_part isSign digits
    have special := readSpecial_eq_none signs (no_letter 'i' rfl) (no_letter 'n' rfl)
    have fraction := readDecimal_eq_none signs (decimalDigits_part digits bare (ends.stops rfl))
      (ends.head?_ne (by decide)) (ends.head?_ne (by decide)) (ends.head?_ne (by decide))
    rw [List.append_assoc, readScalar, moment, special, fraction,
      readWhole_decimal isSign digits bare ends value low high]
    rfl
  | @based letter base w ds isBase digits fits =>
    have read : readBased base (w ++ rest) = some (.whole (numberOf base ds), rest) := by
      have stops : Stops (goesOn base) rest := by cases isBase <;> exact ends.stops rfl
      rw [readBased, someDigits_part digits stops]
      exact if_pos fits
    -- the letter is what every reader that is tried before comes to behind the zero
    have front : letter = 'x' ∨ letter = 'o' ∨ letter = 'b' := by
      cases isBase with
      | hexadecimal => exact .inl rfl
      | octal => exact .inr (.inl rfl)
      | binary => exact .inr (.inr rfl)
    have whole : readWhole ('0' :: letter :: (w ++ rest)) = readBased base (w ++ rest) := by
      cases isBase <;> rfl
    have not_letter {sign : Char} (other : sign ≠ 'x' ∧ sign ≠ 'o' ∧ sign ≠ 'b') (t : List Char) :
        (letter :: t).head? ≠ some sign := by
      intro same
      rw [Option.some.inj same] at front
      exact front.elim other.1 fun later => later.elim other.2.1 other.2.2
    have behind : ('0' :: letter :: (w ++ rest)).dropWhile isDigit = letter :: (w ++ rest) := by
      cases isBase <;> rfl
    have moment : readMoment ('0' :: letter :: (w ++ rest)) = none := by
      apply readMoment_eq_none
      rw [behind]
      exact .inr ⟨not_letter (by decide) _, not_letter (by decide) _⟩
    have sign : readSign ('0' :: letter :: (w ++ rest)) = (false, '0' :: letter :: (w ++ rest)) := rfl
    have special := readSpecial_eq_none sign (fun same => absurd (Option.some.inj same) (by decide))
      (fun same => absurd (Option.some.inj same) (by decide))
    have zero : decimalDigits ('0' :: letter :: (w ++ rest)) = some ([0], letter :: (w ++ rest)) := rfl
    have fraction := readDecimal_eq_none sign zero (not_letter (by decide) _) (not_letter (by decide) _)
      (not_letter (by decide) _)
    rw [List.cons_append, List.cons_append, readScalar, moment, special, fraction, whole, read]
    rfl

end GuideRig.Toml
