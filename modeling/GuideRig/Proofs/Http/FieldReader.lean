/-
# GuideRig.Proofs.Http.FieldReader -- the texts that blocks of fields end with

Which texts close the reader of fields is told here for each of its states: the rest of a name and the
colon after it, the rest of a value and the end of its line, and a whole field with the lines after it
(`closes_block_iff`). Reading a block at once looks for such a text at the begin of the bytes
(`block?_eq_some_iff`), so that what it accepts are the fields of the grammar and an empty line
(`block?_start_iff`).
-/

import GuideRig.Proofs.Http.Closing

namespace GuideRig

open Ascii Http

/-- The line of a field begins with its name. -/
theorem Http.IsFieldLine.exists_cons {field : Bytes × Bytes} {line : Bytes} (h : IsFieldLine field line) :
    ∃ b rest, line = b :: rest ∧ FieldBlock.inName b = true := by
  obtain ⟨some_byte, all, -, -⟩ := h
  obtain ⟨b, name, rfl⟩ := List.exists_cons_of_ne_nil some_byte
  exact ⟨b, _, rfl, all b List.mem_cons_self⟩

namespace FieldReader

/-- A byte, wherever the reader stands. A block that has ended takes no notice of it. -/
def take (r : FieldReader) (b : UInt8) : Except FieldFault FieldReader :=
  match r with
  | .reading block p => step block p b
  | .ended _ => .ok r

/-- The block has not ended. -/
def IsOpen (r : FieldReader) : Prop := ∃ block p, r = .reading block p

variable {block : FieldBlock} {s : Bytes} {e : FieldReader}

theorem isOpen_reading (p : FieldPhase) : IsOpen (.reading block p) := ⟨block, p, rfl⟩

theorem not_isOpen_ended : ¬ IsOpen (.ended block) := nofun

/-! ## A field -/

/-- More of a name, and the colon after it. -/
theorem closes_name_iff {read : Bytes} : Closes take IsOpen (.reading block (.name read)) s e ↔
    ∃ more rest, s = more ++ byte ':' :: rest ∧ (∀ b ∈ more, FieldBlock.inName b = true) ∧
      Closes take IsOpen (.reading block (.value (read.reverse ++ more) [])) rest e := by
  have round (read : Bytes) (b : UInt8) (within : FieldBlock.inName b = true) :
      take (.reading block (.name read)) b = .ok (.reading block (.name (b :: read))) := by
    have colon : b ≠ byte ':' := by
      rintro rfl
      exact absurd within (by decide)
    simp [take, step, colon, within]
  have gathered (more : Bytes) : (more.foldl (fun read b => b :: read) read).reverse =
      read.reverse ++ more := by
    rw [List.foldl_flip_cons_eq_append, List.map_id', List.reverse_append, List.reverse_reverse]
  rw [closes_loop (fun _ => isOpen_reading _) round]
  constructor
  · rintro ⟨more, b, rest, r', rfl, all, out, left, after⟩
    by_cases colon : b = byte ':'
    · subst colon
      obtain rfl := Except.ok.inj left
      rw [gathered] at after
      exact ⟨more, rest, rfl, all, after⟩
    · simp [take, step, colon, out] at left
  · rintro ⟨more, rest, rfl, all, closing⟩
    refine ⟨more, byte ':', rest, _, rfl, all, by decide, rfl, ?_⟩
    rw [gathered]
    exact closing

/-- A byte of a value joins those that have been read, in reverse; gaps at its begin are passed over. -/
def addValue (read : Bytes) (b : UInt8) : Bytes :=
  if FieldBlock.isGap b && read.isEmpty then [] else b :: read

theorem foldl_addValue (text : Bytes) :
    text.foldl addValue [] = (text.dropWhile FieldBlock.isGap).reverse := by
  have begun (more : Bytes) (c : UInt8) (read : Bytes) :
      more.foldl addValue (c :: read) = more.reverse ++ c :: read := by
    induction more generalizing c read with
    | nil => rfl
    | cons b more ih => simp [addValue, ih]
  induction text with
  | nil => rfl
  | cons b text ih =>
    by_cases gap : FieldBlock.isGap b = true
    · simpa [addValue, gap] using ih
    · simp [addValue, gap, begun]

/-- The text of a value, and the end of its line. -/
theorem closes_value_iff {name : Bytes} : Closes take IsOpen (.reading block (.value name [])) s e ↔
    ∃ text ending rest, s = text ++ ending ++ rest ∧ (∀ b ∈ text, FieldBlock.inText b = true) ∧
      IsLineEnd ending ∧ Closes take IsOpen
        (.reading (block.withField name (text.dropWhile FieldBlock.isGap).reverse) .line) rest e := by
  have first (read : Bytes) (b : UInt8) : take (.reading block (.value name read)) b =
      if b = byte '\r' then .ok (.reading block (.valueEnd name read))
      else if b = byte '\n' then .ok (.reading (block.withField name read) .line)
      else if FieldBlock.inText b then .ok (.reading block (.value name (addValue read b)))
      else .error .malformed := by
    -- a gap is text, too
    have text_of_gap : FieldBlock.isGap b = true → FieldBlock.inText b = true := by
      intro gap
      simp only [FieldBlock.isGap, Bool.or_eq_true, beq_iff_eq] at gap
      obtain rfl | rfl := gap <;> decide
    simp only [take, step, stepValue, addValue]
    by_cases half : b = byte '\r'
    · simp [half]
    by_cases whole : b = byte '\n'
    · have other : byte '\n' ≠ byte '\r' := by decide
      simp [whole, other]
    by_cases gap : (FieldBlock.isGap b && read.isEmpty) = true
    · simp [half, whole, gap, text_of_gap (Bool.and_eq_true_iff.mp gap).1]
    · by_cases text : FieldBlock.inText b = true <;> simp [half, whole, gap, text]
  have second (read : Bytes) (b : UInt8) : take (.reading block (.valueEnd name read)) b =
      if b = byte '\n' then .ok (.reading (block.withField name read) .line)
      else .error .malformed := rfl
  have free : FieldBlock.inText (byte '\r') = false ∧ FieldBlock.inText (byte '\n') = false := by decide
  rw [closes_line_iff (fun _ => isOpen_reading _) (fun _ => isOpen_reading _) first second free]
  simp only [foldl_addValue]

/-- The line of a field of which one byte has been read. -/
theorem closes_field_iff {b : UInt8} (within : FieldBlock.inName b = true) :
    Closes take IsOpen (.reading block (.name [b])) s e ↔
      ∃ field first rest, b :: s = first ++ rest ∧ IsFieldLine field first ∧
        Closes take IsOpen (.reading (field :: block) .line) rest e := by
  rw [closes_name_iff]
  constructor
  · rintro ⟨more, _, rfl, all, after⟩
    obtain ⟨text, ending, rest, rfl, texts, ends, closing⟩ := closes_value_iff.mp after
    refine ⟨_, b :: more ++ byte ':' :: text ++ ending, rest, by simp, ?_, closing⟩
    exact .mk (List.cons_ne_nil b more) (List.forall_mem_cons.mpr ⟨within, all⟩) texts ends
  · rintro ⟨_, _, rest, whole, @⟨name, text, ending, some_byte, all, texts, ends⟩, closing⟩
    obtain ⟨c, more, rfl⟩ := List.exists_cons_of_ne_nil some_byte
    obtain ⟨rfl, rfl⟩ := List.cons.inj whole
    refine ⟨more, text ++ ending ++ rest, by simp, (List.forall_mem_cons.mp all).2, ?_⟩
    exact closes_value_iff.mpr ⟨text, ending, rest, rfl, texts, ends, closing⟩

/-! ## Blocks -/

/-- The empty line after the fields. -/
theorem closes_empty_iff : Closes take IsOpen (.reading block .lineEnd) s e ↔
    s = [byte '\n'] ∧ e = .ended block := by
  have second (b : UInt8) : take (.reading block .lineEnd) b =
      if b = byte '\n' then .ok (.ended block) else .error .malformed := rfl
  rw [closes_due_iff (isOpen_reading _) _ second]
  simp only [closes_of_not_open not_isOpen_ended]
  constructor
  · rintro ⟨rest, rfl, rfl, rfl⟩
    exact ⟨rfl, rfl⟩
  · rintro ⟨rfl, rfl⟩
    exact ⟨[], rfl, rfl, rfl⟩

theorem take_line_of_inName (room : block.length < FieldBlock.most) {b : UInt8}
    (within : FieldBlock.inName b = true) :
    take (.reading block .line) b = .ok (.reading block (.name [b])) := by
  have first : b ≠ byte '\r' := by
    rintro rfl
    exact absurd within (by decide)
  have second : b ≠ byte '\n' := by
    rintro rfl
    exact absurd within (by decide)
  simp [take, step, first, second, Nat.not_le.mpr room, within]

/-- The fields that join a block, and the empty line after them. -/
theorem closes_block_iff (room : block.length ≤ FieldBlock.most) :
    Closes take IsOpen (.reading block .line) s e ↔
      ∃ fields lines ending, s = lines ++ ending ∧ IsFields fields lines ∧
        block.length + fields.length ≤ FieldBlock.most ∧ IsLineEnd ending ∧
        e = .ended (fields.reverse ++ block) := by
  constructor
  · intro h
    -- by the bytes that are left, since a line is taken at a time and joins the block
    induction size : s.length using Nat.strongRecOn generalizing s block with
    | _ n ih =>
      obtain ⟨b, rest, r', rfl, one, after⟩ := (closes_step_iff (isOpen_reading _)).mp h
      by_cases first : b = byte '\r'
      · subst first
        obtain rfl := Except.ok.inj one
        obtain ⟨rfl, rfl⟩ := closes_empty_iff.mp after
        exact ⟨[], [], [byte '\r', byte '\n'], rfl, .nil, room, .inr rfl, rfl⟩
      by_cases second : b = byte '\n'
      · subst second
        obtain rfl := Except.ok.inj one
        obtain ⟨rfl, rfl⟩ := (closes_of_not_open not_isOpen_ended).mp after
        exact ⟨[], [], [byte '\n'], rfl, .nil, room, .inl rfl, rfl⟩
      by_cases full : FieldBlock.most ≤ block.length
      · simp [take, step, first, second, full] at one
      by_cases within : FieldBlock.inName b = true
      · rw [take_line_of_inName (Nat.not_le.mp full) within] at one
        obtain rfl := Except.ok.inj one
        obtain ⟨field, front, rest', whole, is_field, more⟩ := (closes_field_iff within).mp after
        have shorter : rest'.length < n := by
          have lengths := congrArg List.length whole
          obtain ⟨_, _, rfl, -⟩ := is_field.exists_cons
          simp at lengths size
          omega
        have room : (field :: block).length ≤ FieldBlock.most := Nat.not_le.mp full
        obtain ⟨fields, lines, ending, rfl, are_fields, fit, ends, rfl⟩ := ih _ shorter room more rfl
        refine ⟨field :: fields, front ++ lines, ending, by simp [whole], .cons is_field are_fields,
          ?_, ends, by simp⟩
        simp at fit ⊢
        omega
      · simp [take, step, first, second, full, within] at one
  · rintro ⟨fields, lines, ending, rfl, are_fields, fit, ends, rfl⟩
    induction are_fields generalizing block with
    | nil =>
      have ended : Closes take IsOpen (.ended block) [] (.ended block) := .here not_isOpen_ended
      obtain rfl | rfl := ends
      · exact .cons (isOpen_reading _) rfl ended
      · exact .cons (isOpen_reading _) rfl (closes_empty_iff.mpr ⟨rfl, rfl⟩)
    | @cons field fields front lines is_field _ ih =>
      rw [List.length_cons] at fit
      obtain ⟨b, more, rfl, within⟩ := is_field.exists_cons
      refine .cons (isOpen_reading _) (take_line_of_inName (by omega) within) ?_
      refine (closes_field_iff within).mpr ⟨field, b :: more, lines ++ ending, by simp, is_field, ?_⟩
      rw [List.reverse_cons, List.append_assoc]
      refine ih ?_ ?_
      · rw [List.length_cons]
        omega
      · rw [List.length_cons]
        omega

/-! ## Blocks at once -/

/-- Reading at once looks for the text that closes the reader. -/
theorem block?_eq_some_iff {r : FieldReader} : r.block? s = some block ↔
    ∃ front rest, s = front ++ rest ∧ Closes take IsOpen r front (.ended block) := by
  constructor
  · intro h
    induction s generalizing r with
    | nil =>
      cases r with
      | ended => exact ⟨[], [], rfl, by cases h; exact .here not_isOpen_ended⟩
      | reading => cases h
    | cons b s ih =>
      cases r with
      | ended => exact ⟨[], b :: s, rfl, by cases h; exact .here not_isOpen_ended⟩
      | reading block' p =>
        rw [block?] at h
        split at h
        · rename_i r one
          obtain ⟨front, rest, rfl, closing⟩ := ih h
          exact ⟨b :: front, rest, rfl, .cons (isOpen_reading p) one closing⟩
        · cases h
  · rintro ⟨front, rest, rfl, closing⟩
    induction front generalizing r with
    | nil =>
      cases closing
      rw [block?]
    | cons b front ih =>
      obtain _ | ⟨⟨block', p, rfl⟩, one, after⟩ := closing
      have one : step block' p b = .ok _ := one
      rw [List.cons_append, block?, one]
      exact ih after

/-- What is read at once are fields, not too many of them, and an empty line. -/
theorem block?_start_iff : start.block? s = some block ↔
    ∃ fields lines ending rest, s = lines ++ ending ++ rest ∧ IsFields fields lines ∧
      fields.length ≤ FieldBlock.most ∧ IsLineEnd ending ∧ block = fields.reverse := by
  have room : ([] : FieldBlock).length ≤ FieldBlock.most := Nat.zero_le _
  rw [block?_eq_some_iff]
  simp only [start, closes_block_iff room, List.length_nil, Nat.zero_add, List.append_nil,
    FieldReader.ended.injEq]
  constructor
  · rintro ⟨_, rest, rfl, fields, lines, ending, rfl, told⟩
    exact ⟨fields, lines, ending, rest, rfl, told⟩
  · rintro ⟨fields, lines, ending, rest, rfl, told⟩
    exact ⟨_, rest, rfl, fields, lines, ending, rfl, told⟩

end FieldReader

end GuideRig
