/-
# GuideRig.Proofs.Json.Token -- where words, numbers and strings lead the reader

A word and a string end by themselves, a number before the byte that follows it. What a token leads to is
told by the two functions that take a scalar and a text: the reader is where these put it, or it has
stopped where they do. A string that is passed over leads on whatever its pieces are (`reach_skipped`);
of another the pieces are joined (`reach_spelling`).
-/

import GuideRig.Proofs.Json.Literal
import GuideRig.Proofs.Json.Machine
import GuideRig.Proofs.Json.Reach

namespace GuideRig.Json

open Ascii

/-- A byte that may stand after a value: it closes the value or is a space. -/
def IsEnding (b : UInt8) : Prop := Machine.IsClosing b ∨ IsSpace b

namespace Machine

variable {r : Record} {stack : List Frame} {want : Want}

/-! ## Words -/

/-- The letters of a word lead to what the word is taken for. -/
theorem reach_letters {due : Bytes} {value : Scalar} (some_letter : due ≠ []) (rest : Bytes) :
    reach r ⟨stack, .word want due value⟩ (due ++ rest) =
      (takeScalar r stack want value).toOption.bind fun m => reach r m rest := by
  induction due with
  | nil => exact absurd rfl some_letter
  | cons c due ih =>
    cases due with
    | nil =>
      have ends : step r ⟨stack, .word want [c] value⟩ c = takeScalar r stack want value := by
        simp only [step, stepWord, if_true]
      rw [List.singleton_append, reach_cons, ends]
    | cons c' due =>
      have goes : step r ⟨stack, .word want (c :: c' :: due) value⟩ c =
          .ok ⟨stack, .word want (c' :: due) value⟩ := by
        simp only [step, stepWord, if_true]
      rw [List.cons_append, reach_cons_of_step goes, ih (List.cons_ne_nil c' due)]

theorem reach_null (afterComma : Bool) (rest : Bytes) :
    reach r ⟨stack, .value want afterComma⟩ (bytes "null" ++ rest) =
      (takeScalar r stack want .null).toOption.bind fun m => reach r m rest := by
  have opens : step r ⟨stack, .value want afterComma⟩ (byte 'n') =
      .ok ⟨stack, .word want (bytes "ull") .null⟩ := rfl
  have spelled : bytes "null" ++ rest = byte 'n' :: (bytes "ull" ++ rest) := rfl
  rw [spelled, reach_cons_of_step opens, reach_letters (by decide)]

theorem reach_flag (b afterComma : Bool) (rest : Bytes) :
    reach r ⟨stack, .value want afterComma⟩ (bytes (if b then "true" else "false") ++ rest) =
      (takeScalar r stack want (.flag b)).toOption.bind fun m => reach r m rest := by
  cases b with
  | true =>
    have opens : step r ⟨stack, .value want afterComma⟩ (byte 't') =
        .ok ⟨stack, .word want (bytes "rue") (.flag true)⟩ := rfl
    have spelled : bytes "true" ++ rest = byte 't' :: (bytes "rue" ++ rest) := rfl
    rw [if_pos rfl, spelled, reach_cons_of_step opens, reach_letters (by decide)]
  | false =>
    have opens : step r ⟨stack, .value want afterComma⟩ (byte 'f') =
        .ok ⟨stack, .word want (bytes "alse") (.flag false)⟩ := rfl
    have spelled : bytes "false" ++ rest = byte 'f' :: (bytes "alse" ++ rest) := rfl
    rw [if_neg Bool.false_ne_true, spelled, reach_cons_of_step opens, reach_letters (by decide)]

end Machine

/-! ## Numbers -/

namespace Digit

open Machine

/-- Where some bytes take a number, if all of them are part of it. -/
def follow (d : Digit) : Bytes → Option Digit
  | [] => some d
  | b :: s =>
    match nextDigit d b with
    | .on e => e.follow s
    | .past | .bad => none

theorem follow_cons_of_on {d e : Digit} {b : UInt8} (h : nextDigit d b = .on e) (s : Bytes) :
    d.follow (b :: s) = e.follow s := by
  rw [follow, h]

theorem follow_append (d : Digit) (s t : Bytes) :
    d.follow (s ++ t) = (d.follow s).bind fun e => e.follow t := by
  induction s generalizing d with
  | nil => rfl
  | cons b s ih =>
    rw [List.cons_append, follow, follow]
    cases nextDigit d b with
    | on e => exact ih e
    | past | bad => rfl

/-- Digits of one part of a number. -/
theorem follow_digits {d : Digit} {ds : Bytes} (stays : ∀ b, isDigit b = true → nextDigit d b = .on d)
    (digits : ∀ b ∈ ds, isDigit b = true) : d.follow ds = some d := by
  induction ds with
  | nil => rfl
  | cons b ds ih =>
    obtain ⟨first, later⟩ := List.forall_mem_cons.mp digits
    rw [follow_cons_of_on (stays b first), ih later]

/-- Digits that another part of a number begins with. -/
theorem follow_first {d e : Digit} {ds : Bytes} (h : IsDigits ds)
    (opens : ∀ b, isDigit b = true → nextDigit d b = .on e)
    (stays : ∀ b, isDigit b = true → nextDigit e b = .on e) : d.follow ds = some e := by
  obtain ⟨some_digit, digits⟩ := h
  obtain ⟨b, ds, rfl⟩ := List.exists_cons_of_ne_nil some_digit
  obtain ⟨first, later⟩ := List.forall_mem_cons.mp digits
  rw [follow_cons_of_on (opens b first), follow_digits stays later]

theorem follow_whole {ds : Bytes} (h : IsWhole ds) :
    ∃ e, sign.follow ds = some e ∧ (e = zero ∨ e = integer) := by
  obtain ⟨⟨some_digit, digits⟩, leading⟩ := h
  obtain ⟨b, ds, rfl⟩ := List.exists_cons_of_ne_nil some_digit
  obtain ⟨first, later⟩ := List.forall_mem_cons.mp digits
  by_cases null : b = byte '0'
  · subst null
    rw [leading rfl]
    exact ⟨zero, rfl, .inl rfl⟩
  · have opens : nextDigit sign b = .on integer := by
      simp only [nextDigit, if_neg null, if_pos first]
    have stays (c : UInt8) (digit : isDigit c = true) : nextDigit integer c = .on integer := by
      simp only [nextDigit, if_pos digit]
    exact ⟨integer, by rw [follow_cons_of_on opens, follow_digits stays later], .inr rfl⟩

theorem follow_fraction {d : Digit} {s : Bytes} (before : d = zero ∨ d = integer) (h : IsFraction s) :
    ∃ e, d.follow s = some e ∧ (e = zero ∨ e = integer ∨ e = fraction) := by
  rcases h with rfl | ⟨ds, rfl, isDigits⟩
  · exact ⟨d, rfl, before.imp_right .inl⟩
  · have opens : nextDigit d (byte '.') = .on point := by
      rcases before with rfl | rfl <;> rfl
    refine ⟨fraction, ?_, .inr (.inr rfl)⟩
    rw [follow_cons_of_on opens]
    exact follow_first isDigits (fun b digit => if_pos digit) fun b digit => if_pos digit

theorem follow_exponent {d : Digit} {s : Bytes} (before : d = zero ∨ d = integer ∨ d = fraction)
    (h : IsExponent s) : ∃ e, d.follow s = some e ∧ e.mayEnd = true := by
  rcases h with rfl | ⟨letter, sign, ds, rfl, isLetter, isSign, isDigits⟩
  · refine ⟨d, rfl, ?_⟩
    rcases before with rfl | rfl | rfl <;> rfl
  · have opens : nextDigit d letter = .on mark := by
      rcases before with rfl | rfl | rfl <;> rcases isLetter with rfl | rfl <;> rfl
    have stays (b : UInt8) (digit : isDigit b = true) : nextDigit exponent b = .on exponent := if_pos digit
    have unsigned (b : UInt8) (digit : isDigit b = true) : nextDigit mark b = .on exponent := by
      have plus : b ≠ byte '+' := ne_of_isDigit digit rfl
      have minus : b ≠ byte '-' := ne_of_isDigit digit rfl
      simp [nextDigit, plus, minus, digit]
    have afterSign : (mark.follow (sign ++ ds)) = some exponent := by
      rcases isSign with rfl | rfl | rfl
      · exact follow_first isDigits unsigned stays
      · rw [List.singleton_append, follow_cons_of_on rfl]
        exact follow_first isDigits (fun b digit => if_pos digit) stays
      · rw [List.singleton_append, follow_cons_of_on rfl]
        exact follow_first isDigits (fun b digit => if_pos digit) stays
    exact ⟨exponent, by rw [List.cons_append, follow_cons_of_on opens, afterSign], rfl⟩

/-- A number is followed from its sign to a place where it may end. -/
theorem exists_follow {literal : Bytes} (h : IsNumber literal) :
    ∃ minus digits e, literal = minus ++ digits ∧ (minus = [] ∨ minus = [byte '-']) ∧
      sign.follow digits = some e ∧ e.mayEnd = true := by
  obtain @⟨minus, whole, fraction, exponent, isSign, isWhole, isFraction, isExponent⟩ := h
  obtain ⟨d, toWhole, afterWhole⟩ := follow_whole isWhole
  obtain ⟨d', toFraction, afterFraction⟩ := follow_fraction afterWhole isFraction
  obtain ⟨e, toExponent, ends⟩ := follow_exponent afterFraction isExponent
  refine ⟨minus, whole ++ fraction ++ exponent, e, by simp only [List.append_assoc], isSign, ?_, ends⟩
  rw [follow_append, follow_append, toWhole, Option.bind_some, toFraction, Option.bind_some, toExponent]

/-- A number ends before a byte that may follow it. -/
theorem nextDigit_of_isEnding {d : Digit} {b : UInt8} (mayEnd : d.mayEnd = true) (h : IsEnding b) :
    nextDigit d b = .past := by
  rcases h with (rfl | rfl | rfl) | rfl | rfl | rfl | rfl
  all_goals
    cases d with
    | zero | integer | fraction | exponent => rfl
    | sign | point | mark | markSign => cases mayEnd

end Digit

namespace Machine

variable {r : Record} {stack : List Frame} {want : Want}

theorem takeScalar_eq {m : Machine} {s : Scalar} (h : takeScalar r stack want s = .ok m) :
    m = ⟨m.stack, .separator⟩ := by
  unfold takeScalar at h
  split at h
  · obtain rfl := Except.ok.inj h
    rfl
  · split at h
    · obtain rfl := Except.ok.inj h
      exact deliver_eq _ stack
    · cases h
  · split at h <;> cases h

/-- Where a number may begin, its first byte takes it to where a sign would have it. -/
theorem step_value_of_on {afterComma : Bool} {b : UInt8} {d : Digit} (h : nextDigit .sign b = .on d) :
    step r ⟨stack, .value want afterComma⟩ b = .ok ⟨stack, .number want d [b]⟩ := by
  simp only [nextDigit] at h
  split at h
  next null =>
    obtain rfl := Next.on.inj h
    rw [null]
    rfl
  next other =>
    split at h
    next digit =>
      obtain rfl := Next.on.inj h
      exact step_value_digit digit other
    next => cases h

theorem reach_follow {d e : Digit} {s : Bytes} (h : d.follow s = some e) (literal rest : Bytes) :
    reach r ⟨stack, .number want d literal⟩ (s ++ rest) =
      reach r ⟨stack, .number want e (s.reverse ++ literal)⟩ rest := by
  induction s generalizing d literal with
  | nil =>
    obtain rfl := Option.some.inj h
    rfl
  | cons b s ih =>
    rw [Digit.follow] at h
    split at h
    next d' on =>
      have goes : step r ⟨stack, .number want d literal⟩ b =
          .ok ⟨stack, .number want d' (b :: literal)⟩ := by
        simp only [step, stepNumber, on]
      rw [List.cons_append, reach_cons_of_step goes, ih h, List.reverse_cons, List.append_assoc,
        List.singleton_append]
    all_goals cases h

/-- A byte that ends a number finds it taken. -/
theorem reach_past {d : Digit} {b : UInt8} (past : nextDigit d b = .past) (literal rest : Bytes) :
    reach r ⟨stack, .number want d literal⟩ (b :: rest) =
      (takeScalar r stack want (.number literal.reverse)).toOption.bind fun m =>
        reach r m (b :: rest) := by
  cases taken : takeScalar r stack want (.number literal.reverse) with
  | error stop =>
    have stops : step r ⟨stack, .number want d literal⟩ b = .error (stop.1, stop.2 + 1) := by
      simp only [step, stepNumber, past, taken]
    exact reach_cons_of_stop stops rest
  | ok m =>
    have goes : step r ⟨stack, .number want d literal⟩ b = step r m b := by
      rw [takeScalar_eq taken]
      simp only [step, stepNumber, past, taken]
    show _ = reach r m (b :: rest)
    rw [reach_cons, reach_cons, goes]

/-- A number is taken once its end has come into sight. -/
theorem reach_number {literal : Bytes} {b : UInt8} (h : IsNumber literal) (ends : IsEnding b)
    (afterComma : Bool) (rest : Bytes) :
    reach r ⟨stack, .value want afterComma⟩ (literal ++ b :: rest) =
      (takeScalar r stack want (.number literal)).toOption.bind fun m => reach r m (b :: rest) := by
  obtain ⟨minus, digits, e, rfl, isSign, follows, mayEnd⟩ := Digit.exists_follow h
  have past := Digit.nextDigit_of_isEnding mayEnd ends
  rcases isSign with rfl | rfl
  · -- without a sign the first digit is the first byte
    cases digits with
    | nil =>
      obtain rfl := Option.some.inj follows
      cases mayEnd
    | cons c digits =>
      rw [Digit.follow] at follows
      split at follows
      next d on =>
        rw [List.nil_append, List.cons_append, reach_cons_of_step (step_value_of_on on),
          reach_follow follows, reach_past past, List.reverse_append, List.reverse_reverse,
          List.reverse_singleton, List.singleton_append]
      all_goals cases follows
  · have opens : step r ⟨stack, .value want afterComma⟩ (byte '-') =
        .ok ⟨stack, .number want .sign [byte '-']⟩ := rfl
    rw [List.singleton_append, List.cons_append, reach_cons_of_step opens, reach_follow follows,
      reach_past past, List.reverse_append, List.reverse_reverse, List.reverse_singleton,
      List.singleton_append]

/-! ## Strings -/

section Strings

variable {isKey : Bool} {content : Bytes}

theorem step_plain {b : UInt8} (quote : b ≠ byte '"') (slash : b ≠ byte '\\')
    (visible : 0x20 ≤ b.toNat) : step r ⟨stack, .string isKey want content .none⟩ b =
      .ok ⟨stack, .string isKey want (b :: content) .none⟩ := by
  have stays : ¬ b < 0x20 := by
    rw [UInt8.lt_iff_toNat_lt]
    exact Nat.not_lt.mpr visible
  simp only [step, stepString, if_neg quote, if_neg slash, if_neg stays]

theorem reach_letter {b a : UInt8} (stands : shortEscape? b = some a) (rest : Bytes) :
    reach r ⟨stack, .string isKey want content .none⟩ (byte '\\' :: b :: rest) =
      reach r ⟨stack, .string isKey want (a :: content) .none⟩ rest := by
  have other : b ≠ byte 'u' := by
    rintro rfl
    cases stands
  exact congrArg Except.toOption (run_letter other stands rest)

/-- What a code unit is made into: nothing at all where the string is passed over. -/
def unitTaken (want : Want) (content : Bytes) (lead : Option Nat) (n : Nat) : Option (Bytes × Escape) :=
  if want.isSkip then some (content, .none) else (takeUnit content lead n).toOption

/-- The digits of a code unit lead to what the unit is made into. -/
theorem reach_unit {ds : Bytes} {v : Nat} {lead : Option Nat} (some_digit : ds ≠ [])
    (digits : ∀ d ∈ ds, (hexValue? d).isSome) (rest : Bytes) :
    reach r ⟨stack, .string isKey want content (.unit ds.length (some v) lead)⟩ (ds ++ rest) =
      (unitTaken want content lead (valueFrom 16 v ds)).bind fun taken =>
        reach r ⟨stack, .string isKey want taken.1 taken.2⟩ rest := by
  induction ds generalizing v with
  | nil => exact absurd rfl some_digit
  | cons d ds ih =>
    obtain ⟨first, later⟩ := List.forall_mem_cons.mp digits
    obtain ⟨n, isDigit⟩ := Option.isSome_iff_exists.mp first
    have counted : valueFrom 16 v (d :: ds) = valueFrom 16 (v * 16 + n) ds := by
      simp only [valueFrom, List.foldl_cons, isDigit, Option.getD_some]
    rw [counted, List.cons_append]
    cases ds with
    | nil =>
      rw [List.nil_append, reach_cons]
      simp only [step, stepString, isDigit, List.length_singleton, Nat.lt_irrefl, if_false, unitTaken,
        valueFrom, List.foldl_nil]
      cases want.isSkip with
      | true => rfl
      | false =>
        cases takeUnit content lead (v * 16 + n) with
        | ok taken => rfl
        | error stop => rfl
    | cons d' ds =>
      have goes : step r ⟨stack, .string isKey want content (.unit (d :: d' :: ds).length (some v) lead)⟩ d =
          .ok ⟨stack, .string isKey want content (.unit (d' :: ds).length (some (v * 16 + n)) lead)⟩ := by
        have more : 1 < (d :: d' :: ds).length := by simp
        simp only [step, stepString, isDigit, if_pos more]
        rfl
      rw [reach_cons_of_step goes, ih (List.cons_ne_nil d' ds) later]

/-- After a leading surrogate its other half is due. -/
def escapeAfter : Option Nat → Escape
  | none => .none
  | some lead => .paired lead

/-- A code unit that is written by its number, after a leading surrogate or not. -/
theorem reach_escaped {ds : Bytes} (four : ds.length = 4) (digits : ∀ d ∈ ds, (hexValue? d).isSome)
    (lead : Option Nat) (rest : Bytes) :
    reach r ⟨stack, .string isKey want content (escapeAfter lead)⟩ (byte '\\' :: byte 'u' :: ds ++ rest) =
      (unitTaken want content lead (valueFrom 16 0 ds)).bind fun taken =>
        reach r ⟨stack, .string isKey want taken.1 taken.2⟩ rest := by
  have begins : reach r ⟨stack, .string isKey want content (escapeAfter lead)⟩
      (byte '\\' :: byte 'u' :: (ds ++ rest)) =
        reach r ⟨stack, .string isKey want content (.unit 4 (some 0) lead)⟩ (ds ++ rest) := by
    cases lead with
    | none => rfl
    | some lead => rfl
  have some_digit : ds ≠ [] := List.ne_nil_of_length_pos (by omega)
  rw [List.cons_append, List.cons_append, begins, ← four, reach_unit some_digit digits]

/-- A string that is passed over leads on, whatever stands in it. -/
theorem reach_skipped {ps : List Piece} {s : Bytes} (h : IsSpelling ps s) (rest : Bytes) :
    reach r ⟨stack, .string isKey .skip content .none⟩ (s ++ byte '"' :: rest) =
      reach r (if isKey then ⟨stack, .colon .skip⟩ else ⟨stack, .separator⟩) rest := by
  induction h generalizing content with
  | nil =>
    have ends : step r ⟨stack, .string isKey .skip content .none⟩ (byte '"') =
        .ok (if isKey then ⟨stack, .colon .skip⟩ else ⟨stack, .separator⟩) := rfl
    exact reach_cons_of_step ends rest
  | plain quote slash visible _ ih =>
    rw [List.cons_append, reach_cons_of_step (step_plain quote slash visible), ih]
  | letter stands _ ih => rw [List.cons_append, List.cons_append, reach_letter stands, ih]
  | number four digits _ ih =>
    rw [List.append_assoc]
    exact (reach_escaped four digits none _).trans ih

/-- The pieces of a string that is evaluated are joined. -/
theorem reach_spelling {ps : List Piece} {s : Bytes} (kept : want.isSkip = false) (h : IsSpelling ps s)
    (lead : Option Nat) (rest : Bytes) :
    reach r ⟨stack, .string isKey want content (escapeAfter lead)⟩ (s ++ byte '"' :: rest) =
      (joinPieces lead ps).bind fun t =>
        reach r ⟨stack, .string isKey want (t.reverse ++ content) .none⟩ (byte '"' :: rest) := by
  induction h generalizing content lead with
  | nil =>
    cases lead with
    | none => rfl
    | some lead => rfl
  | @plain b ps s quote slash visible _ ih =>
    cases lead with
    | none =>
      have later := @ih (b :: content) none
      rw [escapeAfter] at later
      rw [escapeAfter, List.cons_append, reach_cons_of_step (step_plain quote slash visible), later,
        joinPieces]
      cases joinPieces none ps with
      | none => rfl
      | some t => simp
    | some lead =>
      have stops : step r ⟨stack, .string isKey want content (.paired lead)⟩ b =
          .error (.unfinishedSurrogate, 0) := by
        simp only [step, stepString, if_neg slash, stop]
      exact reach_cons_of_stop stops _
  | @letter b a ps s stands _ ih =>
    cases lead with
    | none =>
      have later := @ih (a :: content) none
      rw [escapeAfter] at later
      rw [escapeAfter, List.cons_append, List.cons_append, reach_letter stands, later, joinPieces]
      cases joinPieces none ps with
      | none => rfl
      | some t => simp
    | some lead =>
      have other : b ≠ byte 'u' := by
        rintro rfl
        cases stands
      have goes : step r ⟨stack, .string isKey want content (.paired lead)⟩ (byte '\\') =
          .ok ⟨stack, .string isKey want content (.pairedOpened lead)⟩ := rfl
      have stops : step r ⟨stack, .string isKey want content (.pairedOpened lead)⟩ b =
          .error (.unfinishedSurrogate, 0) := by
        simp only [step, stepString, if_neg other, stop]
      exact (reach_cons_of_step goes _).trans (reach_cons_of_stop stops _)
  | @number ds s ps four digits _ ih =>
    rw [List.append_assoc, reach_escaped four digits lead]
    generalize valueFrom 16 0 ds = n
    -- a unit that stands for a character is joined to what follows it
    have joined (c : Char) : reach r ⟨stack, .string isKey want ((Utf8.ofChar c).reverse ++ content) .none⟩
        (s ++ byte '"' :: rest) =
          ((joinPieces none ps).map (Utf8.ofChar c ++ ·)).bind fun t =>
            reach r ⟨stack, .string isKey want (t.reverse ++ content) .none⟩ (byte '"' :: rest) := by
      refine (ih none).trans ?_
      cases joinPieces none ps with
      | none => rfl
      | some t => simp
    cases lead with
    | none =>
      simp only [unitTaken, kept, Bool.false_eq_true, if_false, takeUnit, joinPieces]
      by_cases trail : isTrail n = true
      · simp only [if_pos trail]
        rfl
      · simp only [if_neg trail]
        by_cases first : isLead n = true
        · simp only [if_pos first]
          exact ih (some n)
        · simp only [if_neg first]
          exact joined _
    | some lead =>
      simp only [unitTaken, kept, Bool.false_eq_true, if_false, takeUnit, joinPieces]
      by_cases trail : isTrail n = true
      · simp only [if_pos trail]
        exact joined _
      · simp only [if_neg trail]
        rfl

/-- What is made of a text: a key is taken by the innermost object and a value by its shape. -/
def textTaken (r : Record) (stack : List Frame) (isKey : Bool) (want : Want) (text : String) :
    Option Machine :=
  if isKey then some (takeKey r stack text) else (takeScalar r stack want (.text text)).toOption

/-- A string that is evaluated leads to what is made of its text, if it has one. -/
theorem reach_quoted {ps : List Piece} {s : Bytes} (kept : want.isSkip = false) (h : IsSpelling ps s)
    (rest : Bytes) :
    reach r ⟨stack, .string isKey want [] .none⟩ (s ++ byte '"' :: rest) =
      (text? ps).bind fun text => (textTaken r stack isKey want text).bind fun m => reach r m rest := by
  refine (reach_spelling kept h none rest).trans ?_
  rw [text?]
  cases joinPieces none ps with
  | none => rfl
  | some t =>
    rw [Option.bind_some, Option.bind_some, List.append_nil, reach_cons]
    simp only [step, stepString, if_true, takeString, kept, Bool.false_eq_true, if_false,
      List.reverse_reverse, textTaken]
    cases Utf8.decode? t with
    | none => rfl
    | some text =>
      cases isKey with
      | true => rfl
      | false => rfl

end Strings

end Machine

end GuideRig.Json
