/-
# GuideRig.Proofs.Http.HeadReader -- the texts that heads end with

Which texts close the reader is told here for each state of a head, in the order in which the lines of a
head come: line ends before it, the status line, the fields, and an empty line. The fields are read by a
machine of their own, inside that of responses (`closes_fields_iff`). What follows a head is whatever
closes the state that the head leads to (`closes_head_iff`).
-/

import GuideRig.Proofs.Http.BodyReader

namespace GuideRig

open Ascii Http

theorem Http.IsStatusLine.exists_cons {line : StatusLine} {first : Bytes} (h : IsStatusLine line first) :
    ∃ rest, first = byte 'H' :: rest := by
  obtain @⟨old, digits, reason, ending, -, -, -, -⟩ := h
  cases old <;> exact ⟨_, rfl⟩

theorem Http.IsHead.length_pos {line : StatusLine} {block : FieldBlock} {head : Bytes}
    (h : IsHead line block head) : 0 < head.length := by
  obtain ⟨-, is_line, -, -, -⟩ := h
  obtain ⟨rest, rfl⟩ := is_line.exists_cons
  simp only [List.length_append, List.length_cons]
  omega

namespace ResponseReader

variable {status : ℕ} {s body : Bytes} {e : ResponseReader}

/-! ## Status lines -/

theorem isOpen_opening (p : StatusPhase) : IsOpen (.opening p) := ⟨_, rfl⟩

variable {line : StatusLine} {old : Bool}

/-- The words after a status, and the end of their line. -/
theorem closes_reason_iff : Closes step IsOpen (.opening (.reason line)) s e ↔
    ∃ words ending rest, s = words ++ ending ++ rest ∧ (∀ b ∈ words, FieldBlock.inText b = true) ∧
      IsLineEnd ending ∧ Closes step IsOpen (.fields line [] .line) rest e :=
  @closes_line_iff _ _ step IsOpen _ _ Unit (fun _ => .opening (.reason line)) (fun _ => .opening (.lineEnd line))
    (fun _ => .fields line [] .line) (fun _ _ => ()) FieldBlock.inText _ _ (fun _ => isOpen_opening _)
    (fun _ => isOpen_opening _) (fun _ _ => rfl) (fun _ _ => rfl) ⟨by decide, by decide⟩ ()

theorem closes_lineEnd_iff : Closes step IsOpen (.opening (.lineEnd line)) s e ↔
    ∃ rest, s = byte '\n' :: rest ∧ Closes step IsOpen (.fields line [] .line) rest e :=
  closes_due_iff (isOpen_opening _) .badStatus fun _ => rfl

/-- What is left of a status line after the status. -/
theorem closes_afterStatus_iff : Closes step IsOpen (.opening (.afterStatus line)) s e ↔
    ∃ reason ending rest, s = reason ++ ending ++ rest ∧ IsReason reason ∧ IsLineEnd ending ∧
      Closes step IsOpen (.fields line [] .line) rest e := by
  rw [closes_step_iff (isOpen_opening _)]
  constructor
  · rintro ⟨b, rest, r', rfl, one, after⟩
    by_cases space : b = byte ' '
    · subst space
      obtain rfl := Except.ok.inj one
      obtain ⟨words, ending, rest, rfl, all, ends, closing⟩ := closes_reason_iff.mp after
      exact ⟨byte ' ' :: words, ending, rest, by simp, .inr ⟨words, rfl, all⟩, ends, closing⟩
    by_cases first : b = byte '\r'
    · subst first
      obtain rfl := Except.ok.inj one
      obtain ⟨rest, rfl, closing⟩ := closes_lineEnd_iff.mp after
      exact ⟨[], [byte '\r', byte '\n'], rest, rfl, .inl rfl, .inr rfl, closing⟩
    by_cases second : b = byte '\n'
    · subst second
      obtain rfl := Except.ok.inj one
      exact ⟨[], [byte '\n'], rest, rfl, .inl rfl, .inl rfl, after⟩
    · simp [step, stepOpening, space, first, second] at one
  · rintro ⟨_, ending, rest, rfl, rfl | ⟨words, rfl, all⟩, ends, closing⟩
    · obtain rfl | rfl := ends
      · exact ⟨byte '\n', rest, _, rfl, rfl, closing⟩
      · exact ⟨byte '\r', byte '\n' :: rest, _, rfl, rfl, closes_lineEnd_iff.mpr ⟨rest, rfl, closing⟩⟩
    · refine ⟨byte ' ', words ++ ending ++ rest, _, by simp, rfl, ?_⟩
      exact closes_reason_iff.mpr ⟨words, ending, rest, rfl, all, ends, closing⟩

/-- The value of a digit is how far its byte is from that of zero. -/
theorem toNat_sub_zero {d : UInt8} (digit : isDigit d = true) :
    (d - byte '0').toNat = d.toNat - (byte '0').toNat :=
  UInt8.toNat_sub_of_le d (byte '0') (by
    rw [UInt8.le_iff_toNat_le]
    exact (isDigit_iff.mp digit).1)

theorem valueFrom_cons_of_isDigit {d : UInt8} (digit : isDigit d = true) (v : ℕ) (digits : Bytes) :
    valueFrom 10 v (d :: digits) = valueFrom 10 (v * 10 + (d - byte '0').toNat) digits := by
  rw [valueFrom_cons digit, toNat_sub_zero digit]

theorem step_status_of_not_isDigit {k v : ℕ} {b : UInt8} (other : ¬ isDigit b = true)
    (r' : ResponseReader) : (ResponseReader.opening (.status old k v)).step b ≠ .ok r' := by
  simp [step, stepOpening, other]

/-- The digits of a status. -/
theorem closes_digits_iff {k v : ℕ} : Closes step IsOpen (.opening (.status old (k + 1) v)) s e ↔
    ∃ digits rest, s = digits ++ rest ∧ digits.length = k + 1 ∧ (∀ d ∈ digits, isDigit d = true) ∧
      Closes step IsOpen (.opening (.afterStatus ⟨old, valueFrom 10 v digits⟩)) rest e := by
  have step_last (v : ℕ) (b : UInt8) (digit : isDigit b = true) :
      (ResponseReader.opening (.status old 1 v)).step b =
        .ok (.opening (.afterStatus ⟨old, v * 10 + (b - byte '0').toNat⟩)) := by
    simp [step, stepOpening, digit]
  have step_more (k v : ℕ) (b : UInt8) (digit : isDigit b = true) :
      (ResponseReader.opening (.status old (k + 2) v)).step b =
        .ok (.opening (.status old (k + 1) (v * 10 + (b - byte '0').toNat))) := by
    simp [step, stepOpening, digit]
  induction k generalizing v s with
  | zero =>
    rw [closes_step_iff (isOpen_opening _)]
    constructor
    · rintro ⟨b, rest, r', rfl, one, after⟩
      by_cases digit : isDigit b = true
      · obtain rfl := Except.ok.inj ((step_last v b digit).symm.trans one)
        refine ⟨[b], rest, rfl, rfl, by simpa using digit, ?_⟩
        rw [valueFrom_cons_of_isDigit digit]
        exact after
      · exact absurd one (step_status_of_not_isDigit digit r')
    · rintro ⟨digits, rest, rfl, size, all, closing⟩
      obtain ⟨b, rfl⟩ := List.length_eq_one_iff.mp size
      have digit : isDigit b = true := all b List.mem_cons_self
      rw [valueFrom_cons_of_isDigit digit] at closing
      exact ⟨b, rest, _, rfl, step_last v b digit, closing⟩
  | succ k ih =>
    rw [closes_step_iff (isOpen_opening _)]
    constructor
    · rintro ⟨b, rest, r', rfl, one, after⟩
      by_cases digit : isDigit b = true
      · obtain rfl := Except.ok.inj ((step_more k v b digit).symm.trans one)
        obtain ⟨digits, rest, rfl, size, all, closing⟩ := ih.mp after
        rw [← valueFrom_cons_of_isDigit digit] at closing
        exact ⟨b :: digits, rest, rfl, congrArg Nat.succ size, List.forall_mem_cons.mpr ⟨digit, all⟩,
          closing⟩
      · exact absurd one (step_status_of_not_isDigit digit r')
    · rintro ⟨digits, rest, rfl, size, all, closing⟩
      obtain ⟨b, digits, rfl⟩ := List.exists_cons_of_length_eq_add_one size
      obtain ⟨digit, all⟩ := List.forall_mem_cons.mp all
      rw [valueFrom_cons_of_isDigit digit] at closing
      exact ⟨b, digits ++ rest, _, rfl, step_more k v b digit,
        ih.mpr ⟨digits, rest, rfl, Nat.succ.inj size, all, closing⟩⟩

/-- The space after a version. -/
theorem closes_gap_iff : Closes step IsOpen (.opening (.gap old)) s e ↔
    ∃ rest, s = byte ' ' :: rest ∧ Closes step IsOpen (.opening (.status old 3 0)) rest e :=
  closes_due_iff (isOpen_opening _) .badVersion fun _ => rfl

/-- The bytes of a version before its last digit are due one after the other. -/
theorem closes_version_iff {k : ℕ} (within : k ≤ versionBytes.length) :
    Closes step IsOpen (.opening (.version k)) s e ↔ ∃ rest, s = versionBytes.drop k ++ rest ∧
      Closes step IsOpen (.opening (.version versionBytes.length)) rest e := by
  induction left : versionBytes.length - k generalizing k s with
  | zero =>
    obtain rfl : k = versionBytes.length := by omega
    simp
  | succ n ih =>
    have inside : k < versionBytes.length := by omega
    have one : ∀ b, (ResponseReader.opening (.version k)).step b =
        if b = versionBytes[k] then .ok (.opening (.version (k + 1))) else .error .badVersion := by
      intro b
      simp [step, stepOpening, inside, eq_comm]
    rw [closes_due_iff (isOpen_opening _) _ one, List.drop_eq_getElem_cons inside]
    constructor
    · rintro ⟨_, rfl, after⟩
      obtain ⟨rest, rfl, closing⟩ := (ih inside (by omega)).mp after
      exact ⟨rest, rfl, closing⟩
    · rintro ⟨rest, rfl, closing⟩
      exact ⟨_, rfl, (ih inside (by omega)).mpr ⟨rest, rfl, closing⟩⟩

/-- A version and the space after it. -/
theorem closes_versions_iff : Closes step IsOpen (.opening (.version 1)) s e ↔
    ∃ old rest, byte 'H' :: s = bytes (if old = true then "HTTP/1.0 " else "HTTP/1.1 ") ++ rest ∧
      Closes step IsOpen (.opening (.status old 3 0)) rest e := by
  have written (old : Bool) (rest : Bytes) :
      bytes (if old = true then "HTTP/1.0 " else "HTTP/1.1 ") ++ rest = byte 'H' ::
        (versionBytes.drop 1 ++ byte (if old = true then '0' else '1') :: byte ' ' :: rest) := by
    cases old <;> rfl
  rw [closes_version_iff (by decide)]
  simp only [written, List.cons.injEq, true_and]
  constructor
  · rintro ⟨_, rfl, after⟩
    obtain ⟨b, rest, r', rfl, one, after⟩ := (closes_step_iff (isOpen_opening _)).mp after
    by_cases new : b = byte '1'
    · subst new
      obtain rfl := Except.ok.inj one
      obtain ⟨rest, rfl, closing⟩ := closes_gap_iff.mp after
      exact ⟨false, rest, rfl, closing⟩
    by_cases old : b = byte '0'
    · subst old
      obtain rfl := Except.ok.inj one
      obtain ⟨rest, rfl, closing⟩ := closes_gap_iff.mp after
      exact ⟨true, rest, rfl, closing⟩
    · simp [step, stepOpening, new, old] at one
  · rintro ⟨old, rest, rfl, closing⟩
    refine ⟨_, rfl, .cons (isOpen_opening _) ?_ (closes_gap_iff.mpr ⟨rest, rfl, closing⟩)⟩
    cases old <;> rfl

/-- A status line. -/
theorem closes_statusLine_iff : Closes step IsOpen (.opening (.version 1)) s e ↔
    ∃ line first rest, byte 'H' :: s = first ++ rest ∧ IsStatusLine line first ∧
      Closes step IsOpen (.fields line [] .line) rest e := by
  rw [closes_versions_iff]
  constructor
  · rintro ⟨old, rest, written, after⟩
    obtain ⟨digits, rest, rfl, size, all, after_digits⟩ := closes_digits_iff.mp after
    obtain ⟨reason, ending, rest, rfl, words, ends, closing⟩ := closes_afterStatus_iff.mp after_digits
    refine ⟨⟨old, value digits⟩, _, rest, ?_, .mk size all words ends, closing⟩
    simpa using written
  · rintro ⟨_, _, rest, written, @⟨old, digits, reason, ending, size, all, words, ends⟩, closing⟩
    refine ⟨old, digits ++ (reason ++ ending ++ rest), by simpa using written, ?_⟩
    refine closes_digits_iff.mpr ⟨digits, _, rfl, size, all, ?_⟩
    exact closes_afterStatus_iff.mpr ⟨reason, ending, rest, rfl, words, ends, closing⟩

/-- Ends of lines before a response are passed over. -/
theorem closes_blank_iff : Closes step IsOpen start s e ↔
    ∃ blank rest, s = blank ++ byte 'H' :: rest ∧ IsBlank blank ∧
      Closes step IsOpen (.opening (.version 1)) rest e := by
  have half (rest : Bytes) : Closes step IsOpen (.opening (.opening true)) rest e ↔
      ∃ rest', rest = byte '\n' :: rest' ∧ Closes step IsOpen start rest' e :=
    closes_due_iff (isOpen_opening _) .badHeader fun _ => rfl
  constructor
  · intro h
    induction size : s.length using Nat.strongRecOn generalizing s with
    | _ n ih =>
      obtain ⟨b, rest, r', rfl, one, after⟩ := (closes_step_iff (isOpen_opening _)).mp h
      by_cases second : b = byte '\n'
      · subst second
        obtain rfl := Except.ok.inj one
        obtain ⟨blank, rest, rfl, ends, closing⟩ := ih rest.length (by simp at size; omega) after rfl
        exact ⟨byte '\n' :: blank, rest, rfl, .cons (.inl rfl) ends, closing⟩
      by_cases first : b = byte '\r'
      · subst first
        obtain rfl := Except.ok.inj one
        obtain ⟨rest, rfl, behind⟩ := (half _).mp after
        obtain ⟨blank, rest, rfl, ends, closing⟩ := ih rest.length (by simp at size; omega) behind rfl
        exact ⟨byte '\r' :: byte '\n' :: blank, rest, rfl, .cons (.inr rfl) ends, closing⟩
      by_cases opens : b = byte 'H'
      · subst opens
        obtain rfl := Except.ok.inj one
        exact ⟨[], rest, rfl, .nil, after⟩
      · simp [step, stepOpening, first, second, opens] at one
  · rintro ⟨blank, rest, rfl, ends, closing⟩
    induction ends with
    | nil => exact .cons (isOpen_opening _) rfl closing
    | cons ending _ ih =>
      obtain rfl | rfl := ending
      · exact .cons (isOpen_opening _) rfl ih
      · exact .cons (isOpen_opening _) rfl ((half _).mpr ⟨_, rfl, ih⟩)

/-! ## Fields -/

section Fields

variable {block : FieldBlock}

theorem isOpen_fields (p : FieldPhase) : IsOpen (.fields line block p) := ⟨_, rfl⟩

/-- The fields of a head are read by the reader of fields, and the head goes on where their block has ended. -/
theorem closes_fields_iff {p : FieldPhase} : Closes step IsOpen (.fields line block p) s e ↔
    ∃ front rest block' r', s = front ++ rest ∧
      Closes FieldReader.take FieldReader.IsOpen (.reading block p) front (.ended block') ∧
      afterHead line block' = .ok r' ∧ Closes step IsOpen r' rest e := by
  constructor
  · intro h
    induction s generalizing block p with
    | nil => exact absurd h (not_closes_nil (isOpen_fields p))
    | cons b s ih =>
      obtain ⟨r', one, after⟩ := (closes_cons_iff (isOpen_fields p)).mp h
      rw [step, stepFields] at one
      split at one
      · rename_i block' p' inner
        obtain rfl := Except.ok.inj one
        obtain ⟨front, rest, block'', r'', rfl, closing, ended, behind⟩ := ih after
        exact ⟨b :: front, rest, block'', r'', rfl, .cons (FieldReader.isOpen_reading p) inner closing,
          ended, behind⟩
      · rename_i block' inner
        exact ⟨[b], s, block', r', rfl, .cons (FieldReader.isOpen_reading p) inner
          (.here FieldReader.not_isOpen_ended), one, after⟩
      · cases one
      · cases one
  · rintro ⟨front, rest, block', r', rfl, closing, ended, behind⟩
    induction front generalizing block p with
    | nil => exact absurd closing (not_closes_nil (FieldReader.isOpen_reading p))
    | cons b front ih =>
      obtain ⟨inner, one, after⟩ := (closes_cons_iff (FieldReader.isOpen_reading p)).mp closing
      have one : FieldReader.step block p b = .ok inner := one
      cases inner with
      | reading block'' p' =>
        refine .cons (isOpen_fields p) ?_ (ih after)
        rw [step, stepFields, one]
      | ended block'' =>
        obtain ⟨rfl, ⟨⟩⟩ := (closes_of_not_open FieldReader.not_isOpen_ended).mp after
        refine .cons (isOpen_fields p) ?_ behind
        rw [step, stepFields, one]
        exact ended

end Fields

/-! ## Heads -/

/-- A head, and what it leads to. -/
theorem closes_head_iff : Closes step IsOpen start s e ↔
    ∃ line block head rest r', s = head ++ rest ∧ IsHead line block head ∧
      afterHead line block = .ok r' ∧ Closes step IsOpen r' rest e := by
  have room : ([] : FieldBlock).length ≤ FieldBlock.most := Nat.zero_le _
  rw [closes_blank_iff]
  constructor
  · rintro ⟨blank, rest, rfl, blanks, after⟩
    obtain ⟨line, first, rest', whole, is_line, more⟩ := closes_statusLine_iff.mp after
    obtain ⟨_, rest', block, r', rfl, fielded, ended, closing⟩ := closes_fields_iff.mp more
    obtain ⟨fields, lines, ending, rfl, are_fields, fit, ends, ⟨⟩⟩ :=
      (FieldReader.closes_block_iff room).mp fielded
    rw [List.append_nil] at ended
    rw [List.length_nil, Nat.zero_add] at fit
    exact ⟨line, fields.reverse, blank ++ first ++ lines ++ ending, rest', r', by simp [whole],
      .mk blanks is_line are_fields fit ends, ended, closing⟩
  · rintro ⟨line, _, _, rest, r', rfl, @⟨fields, blank, first, lines, ending, blanks, is_line,
      are_fields, fit, ends⟩, ended, closing⟩
    obtain ⟨more, rfl⟩ := is_line.exists_cons
    refine ⟨blank, more ++ (lines ++ ending ++ rest), by simp, blanks, ?_⟩
    refine closes_statusLine_iff.mpr ⟨line, _, lines ++ ending ++ rest, rfl, is_line, ?_⟩
    refine closes_fields_iff.mpr ⟨lines ++ ending, rest, fields.reverse, r', rfl, ?_, ended, closing⟩
    refine (FieldReader.closes_block_iff room).mpr ⟨fields, lines, ending, rfl, are_fields, ?_, ends, ?_⟩
    · simpa using fit
    · rw [List.append_nil]

end ResponseReader

end GuideRig
