/-
# GuideRig.Proofs.Json.Machine -- the reader takes written data for the data

The reader is run over the written form of a datum, one layer at a time: characters, strings, numbers,
then the items of a list and the entries of a map. Each layer says to which state its bytes lead, whatever
stack they are read on and whatever follows, so that the layer above never looks inside. A number is the
one value that does not end by itself; for its sake values are always followed by a byte that may close
them (`IsClosing`). `takes_of_holds` is the outcome: wherever a shape is asked for, the written form of
each datum of the shape is taken for the datum.
-/

import Mathlib.Tactic.Common
import GuideRig.Json.Machine
import GuideRig.Proofs.Json.Number
import GuideRig.Proofs.Json.Printer

namespace GuideRig.Json

open Ascii

/-- The data of a shape. A whole number is in the range of its shape, and in 64 bits. -/
def Shape.Holds : Shape → Datum → Prop
  | .text, .text _ => True
  | .flag, .flag _ => True
  | .whole range, .whole v => (range.low ≤ v ∧ v ≤ range.high) ∧ -(twoTo 63 : Int) ≤ v ∧ v < twoTo 64
  | .list item, .list items => ∀ d ∈ items, item.Holds d
  | .map item, .map entries => ∀ e ∈ entries, item.Holds e.2
  | _, _ => False

namespace Machine

variable {r : Record} {stack : List Frame} {rest : Bytes}

/-! ## Runs -/

theorem run_cons {m m' : Machine} {b : UInt8} (h : m.step r b = .ok m') (rest : Bytes) :
    m.run r (b :: rest) = m'.run r rest := by
  rw [run, h]

/-- Two states that take the next byte to the same state run alike. -/
theorem run_cons_congr {m m' : Machine} {b : UInt8} (h : m.step r b = m'.step r b) (rest : Bytes) :
    m.run r (b :: rest) = m'.run r (b :: rest) := by
  rw [run, run, h]

/-! ## Strings -/

section Strings

variable {isKey : Bool} {want : Want} {content : Bytes}

/-- Bytes that stand for themselves are taken as they are. -/
theorem run_plain {s : Bytes} (h : ∀ b ∈ s, b ≠ byte '"' ∧ b ≠ byte '\\' ∧ 0x20 ≤ b.toNat)
    (rest : Bytes) : run r ⟨stack, .string isKey want content .none⟩ (s ++ rest) =
      run r ⟨stack, .string isKey want (s.reverse ++ content) .none⟩ rest := by
  induction s generalizing content with
  | nil => rfl
  | cons b s ih =>
    obtain ⟨⟨quote, slash, visible⟩, later⟩ := List.forall_mem_cons.mp h
    have stays : ¬ b < 0x20 := by
      rw [UInt8.lt_iff_toNat_lt]
      exact Nat.not_lt.mpr visible
    have next : step r ⟨stack, .string isKey want content .none⟩ b =
        .ok ⟨stack, .string isKey want (b :: content) .none⟩ := by
      simp only [step, stepString, if_neg quote, if_neg slash, if_neg stays]
    rw [List.cons_append, run_cons next, ih later, List.reverse_cons, List.append_assoc,
      List.singleton_append]

/-- An escape of one letter is taken for the byte that it stands for. -/
theorem run_letter {b a : UInt8} (other : b ≠ byte 'u') (h : shortEscape? b = some a) (rest : Bytes) :
    run r ⟨stack, .string isKey want content .none⟩ (byte '\\' :: b :: rest) =
      run r ⟨stack, .string isKey want (a :: content) .none⟩ rest := by
  have opens : step r ⟨stack, .string isKey want content .none⟩ (byte '\\') =
      .ok ⟨stack, .string isKey want content .opened⟩ := rfl
  have takes : step r ⟨stack, .string isKey want content .opened⟩ b =
      .ok ⟨stack, .string isKey want (a :: content) .none⟩ := by
    simp only [step, stepString, if_neg other, h]
  rw [run_cons opens, run_cons takes]

/-- A digit of a code unit before the last one. -/
theorem step_unit {due v d : Nat} {b : UInt8} (more : 1 < due) (h : hexValue? b = some d) :
    step r ⟨stack, .string isKey want content (.unit due (some v) none)⟩ b =
      .ok ⟨stack, .string isKey want content (.unit (due - 1) (some (v * 16 + d)) none)⟩ := by
  simp only [step, stepString, h, if_pos more]

/-- The number of a control character is taken for the character. -/
theorem run_number {c : Char} (h : c.toNat < 0x20) (kept : want.isSkip = false) (rest : Bytes) :
    run r ⟨stack, .string isKey want content .none⟩ (byte '\\' :: byte 'u' :: byte '0' :: byte '0' ::
        lowerHex (c.toNat / 16) :: lowerHex (c.toNat % 16) :: rest) =
      run r ⟨stack, .string isKey want ((Utf8.ofChar c).reverse ++ content) .none⟩ rest := by
  have zero : hexValue? (byte '0') = some 0 := by decide
  have high : hexValue? (lowerHex (c.toNat / 16)) = some (c.toNat / 16) :=
    hexValue?_lowerHex (by omega)
  have low : hexValue? (lowerHex (c.toNat % 16)) = some (c.toNat % 16) :=
    hexValue?_lowerHex (by omega)
  have opens : step r ⟨stack, .string isKey want content .none⟩ (byte '\\') =
      .ok ⟨stack, .string isKey want content .opened⟩ := rfl
  have counts : step r ⟨stack, .string isKey want content .opened⟩ (byte 'u') =
      .ok ⟨stack, .string isKey want content (.unit 4 (some 0) none)⟩ := rfl
  have value : (0 * 16 + c.toNat / 16) * 16 + c.toNat % 16 = c.toNat := by omega
  -- a number this small is no half of a pair
  have single : takeUnit content none c.toNat =
      .ok ((Utf8.ofChar c).reverse ++ content, .none) := by
    have trail : isTrail c.toNat = false := by
      simp only [isTrail, Bool.and_eq_false_iff, decide_eq_false_iff_not]
      omega
    have lead : isLead c.toNat = false := by
      simp only [isLead, Bool.and_eq_false_iff, decide_eq_false_iff_not]
      omega
    simp only [takeUnit, trail, lead, Bool.false_eq_true, if_false, Char.ofNat_toNat]
  have last : step r ⟨stack, .string isKey want content (.unit 1 (some (0 * 16 + c.toNat / 16)) none)⟩
      (lowerHex (c.toNat % 16)) =
        .ok ⟨stack, .string isKey want ((Utf8.ofChar c).reverse ++ content) .none⟩ := by
    simp only [step, stepString, low, value, kept, single, Nat.lt_irrefl, Bool.false_eq_true, if_false]
  rw [run_cons opens, run_cons counts, run_cons (step_unit (by decide) zero),
    run_cons (step_unit (by decide) zero), run_cons (step_unit (by decide) high), run_cons last]

/-- A written character is taken for the character. -/
theorem run_escapeChar (c : Char) (kept : want.isSkip = false) (rest : Bytes) :
    run r ⟨stack, .string isKey want content .none⟩ (escapeChar c ++ rest) =
      run r ⟨stack, .string isKey want ((Utf8.ofChar c).reverse ++ content) .none⟩ rest := by
  rcases escapeChar_cases c with ⟨b, a, written, -, other, letter, form⟩ | ⟨control, written⟩ |
    ⟨quote, slash, visible, written⟩
  · rw [written, form]
    exact run_letter other letter rest
  · rw [written]
    exact run_number control kept rest
  · rw [written]
    apply run_plain
    intro b member
    refine ⟨?_, ?_, ?_⟩
    · rintro rfl
      exact quote (eq_of_byte_mem_ofChar (by decide) member)
    · rintro rfl
      exact slash (eq_of_byte_mem_ofChar (by decide) member)
    · by_contra low
      have value := Utf8.toNat_of_mem_ofChar member (by omega)
      omega

/-- The written characters of a text are taken for its bytes. -/
theorem run_chars (cs : List Char) (kept : want.isSkip = false) (rest : Bytes) :
    run r ⟨stack, .string isKey want content .none⟩ (cs.flatMap escapeChar ++ rest) =
      run r ⟨stack, .string isKey want ((cs.flatMap Utf8.ofChar).reverse ++ content) .none⟩ rest := by
  induction cs generalizing content with
  | nil => rfl
  | cons c cs ih =>
    rw [List.flatMap_cons, List.append_assoc, run_escapeChar c kept, ih, List.flatMap_cons,
      List.reverse_append, List.append_assoc]

/-- At the end of a string its content is the text. -/
theorem takeString_encode (s : String) (kept : want.isSkip = false) :
    takeString r stack isKey want (Utf8.encode s).reverse =
      if isKey then .ok (takeKey r stack s) else takeScalar r stack want (.text s) := by
  simp only [takeString, kept, List.reverse_reverse, Utf8.decode?_eq_some_iff.mpr rfl,
    Bool.false_eq_true, if_false]

/-- A written text leads from its first quote to what is made of the text. -/
theorem run_string {m : Machine} (s : String) (kept : want.isSkip = false)
    (made : (if isKey then .ok (takeKey r stack s) else takeScalar r stack want (.text s)) =
      .ok m) (rest : Bytes) :
    run r ⟨stack, .string isKey want [] .none⟩ (s.toList.flatMap escapeChar ++ byte '"' :: rest) =
      run r m rest := by
  have ends : step r ⟨stack, .string isKey want (Utf8.encode s).reverse .none⟩ (byte '"') = .ok m := by
    rw [← made, ← takeString_encode s kept]
    rfl
  rw [run_chars s.toList kept, List.append_nil]
  exact run_cons ends rest

end Strings

/-! ## Scalars -/

/-- A byte that may stand after a value in a list or object. -/
def IsClosing (b : UInt8) : Prop := b = byte ',' ∨ b = byte ']' ∨ b = byte '\x7d'

/-- A datum is taken wherever its shape is asked for: its written form leads to the state in which the
innermost list or object has been handed the datum. -/
def Takes (r : Record) (shape : Shape) (d : Datum) : Prop :=
  ∀ stack afterComma b rest, IsClosing b →
    run r ⟨stack, .value (.shape shape) afterComma⟩ (d.write ++ b :: rest) =
      run r (deliver d stack) (b :: rest)

/-- Once something has been handed a datum, a separator is due. -/
theorem deliver_eq (d : Datum) (stack : List Frame) :
    deliver d stack = ⟨(deliver d stack).stack, .separator⟩ := by
  unfold deliver
  split <;> rfl

theorem takes_text (s : String) : Takes r .text (.text s) := by
  intro stack afterComma b rest closing
  have opens : step r ⟨stack, .value (.shape .text) afterComma⟩ (byte '"') =
      .ok ⟨stack, .string false (.shape .text) [] .none⟩ := rfl
  rw [Datum.write, quote_append, run_cons opens]
  exact run_string s rfl rfl (b :: rest)

theorem takes_flag (v : Bool) : Takes r .flag (.flag v) := by
  intro stack afterComma b rest closing
  cases v with
  | true => rfl
  | false => rfl

theorem isSpace_of_isDigit {d : UInt8} (h : isDigit d = true) : isSpace d = false := by
  simp only [isSpace, Bool.or_eq_false_iff, beq_eq_false_iff_ne]
  exact ⟨⟨⟨ne_of_isDigit h rfl, ne_of_isDigit h rfl⟩, ne_of_isDigit h rfl⟩, ne_of_isDigit h rfl⟩

/-- Digits are taken as they are. -/
theorem run_digits {want : Want} {literal ds : Bytes} (h : ∀ d ∈ ds, isDigit d = true) (rest : Bytes) :
    run r ⟨stack, .number want .integer literal⟩ (ds ++ rest) =
      run r ⟨stack, .number want .integer (ds.reverse ++ literal)⟩ rest := by
  induction ds generalizing literal with
  | nil => rfl
  | cons d ds ih =>
    obtain ⟨first, later⟩ := List.forall_mem_cons.mp h
    have next : step r ⟨stack, .number want .integer literal⟩ d =
        .ok ⟨stack, .number want .integer (d :: literal)⟩ := by
      simp only [step, stepNumber, nextDigit, if_pos first]
    rw [List.cons_append, run_cons next, ih later, List.reverse_cons, List.append_assoc,
      List.singleton_append]

/-- A number ends before a byte that may close it. -/
theorem step_past {want : Want} {digit : Digit} {literal : Bytes} {d : Datum} {b : UInt8}
    (whole : digit = .zero ∨ digit = .integer) (closing : IsClosing b)
    (taken : takeScalar r stack want (.number literal.reverse) = .ok (deliver d stack)) :
    step r ⟨stack, .number want digit literal⟩ b = step r (deliver d stack) b := by
  have past : nextDigit digit b = .past := by
    rcases whole with rfl | rfl <;> rcases closing with rfl | rfl | rfl <;> rfl
  rw [deliver_eq]
  simp only [step, stepNumber, past, taken]

/-- The first digit of a number leads to one of the two states that a whole number may end in. -/
theorem run_first {want : Want} {m : Machine} {literal : Bytes}
    (zero : step r m (byte '0') = .ok ⟨stack, .number want .zero (byte '0' :: literal)⟩)
    (other : ∀ d, isDigit d = true → d ≠ byte '0' →
      step r m d = .ok ⟨stack, .number want .integer (d :: literal)⟩) (n : Nat) (rest : Bytes) :
    ∃ digit, (digit = .zero ∨ digit = .integer) ∧ run r m (decimal n ++ rest) =
      run r ⟨stack, .number want digit ((decimal n).reverse ++ literal)⟩ rest := by
  by_cases h : n = 0
  · subst h
    have form : decimal 0 = [byte '0'] := decimal_of_lt (by decide)
    rw [form]
    exact ⟨.zero, .inl rfl, run_cons zero rest⟩
  · obtain ⟨d, ds, form, first⟩ := exists_decimal_cons h
    have digits : ∀ e ∈ d :: ds, isDigit e = true := by
      rw [← form]
      intro e
      exact isDigit_of_mem_decimal
    obtain ⟨digit, later⟩ := List.forall_mem_cons.mp digits
    refine ⟨.integer, .inr rfl, ?_⟩
    rw [form, List.cons_append, run_cons (other d digit first), run_digits later, List.reverse_cons,
      List.append_assoc, List.singleton_append]

theorem accept_whole {range : WholeRange} {v : Int} (h : Shape.Holds (.whole range) (.whole v)) :
    (Shape.whole range).accept (.number (decimalInt v)) = .ok (.whole v) := by
  obtain ⟨⟨low, high⟩, least, most⟩ := h
  simp only [Shape.accept, Scalar.found, Number.ofLiteral_decimalInt least most, low, high, decide_true,
    Bool.and_self, if_true]

/-- A digit other than zero begins a whole number wherever a value is due. -/
theorem step_value_digit {want : Want} {afterComma : Bool} {d : UInt8} (h : isDigit d = true)
    (other : d ≠ byte '0') : step r ⟨stack, .value want afterComma⟩ d =
      .ok ⟨stack, .number want .integer [d]⟩ := by
  have null : d ≠ byte 'n' := ne_of_isDigit h rfl
  have yes : d ≠ byte 't' := ne_of_isDigit h rfl
  have no : d ≠ byte 'f' := ne_of_isDigit h rfl
  have minus : d ≠ byte '-' := ne_of_isDigit h rfl
  simp only [step, stepValue, isSpace_of_isDigit h, if_neg null, if_neg yes, if_neg no, if_neg minus,
    if_neg other, if_pos h, Bool.false_eq_true, if_false]

theorem step_sign_digit {want : Want} {literal : Bytes} {d : UInt8} (h : isDigit d = true)
    (other : d ≠ byte '0') : step r ⟨stack, .number want .sign literal⟩ d =
      .ok ⟨stack, .number want .integer (d :: literal)⟩ := by
  simp only [step, stepNumber, nextDigit, if_neg other, if_pos h]

theorem takes_whole {range : WholeRange} {v : Int} (h : Shape.Holds (.whole range) (.whole v)) :
    Takes r (.whole range) (.whole v) := by
  intro stack afterComma b rest closing
  have taken : takeScalar r stack (.shape (.whole range)) (.number (decimalInt v)) =
      .ok (deliver (.whole v) stack) := by
    simp only [takeScalar, accept_whole h]
  rw [decimalInt] at taken
  rw [Datum.write, decimalInt]
  by_cases negative : v < 0
  · rw [if_pos negative] at taken ⊢
    have opens : step r ⟨stack, .value (.shape (.whole range)) afterComma⟩ (byte '-') =
        .ok ⟨stack, .number (.shape (.whole range)) .sign [byte '-']⟩ := rfl
    obtain ⟨digit, whole, reached⟩ := run_first (m := ⟨stack, .number (.shape (.whole range)) .sign
      [byte '-']⟩) (r := r) rfl (fun d => step_sign_digit) v.natAbs (b :: rest)
    rw [List.cons_append, run_cons opens, reached]
    apply run_cons_congr (step_past whole closing ?_)
    rw [List.reverse_append, List.reverse_reverse]
    exact taken
  · rw [if_neg negative] at taken ⊢
    obtain ⟨digit, whole, reached⟩ := run_first (r := r) (m := ⟨stack, .value (.shape (.whole range))
      afterComma⟩) rfl (fun d => step_value_digit) v.natAbs (b :: rest)
    rw [reached]
    apply run_cons_congr (step_past whole closing ?_)
    rw [List.append_nil, List.reverse_reverse]
    exact taken

/-! ## Lists -/

/-- The first byte of a value is neither a space nor the end of a list. -/
theorem exists_write_cons (d : Datum) :
    ∃ b t, d.write = b :: t ∧ isSpace b = false ∧ b ≠ byte ']' := by
  cases d with
  | text s => exact ⟨_, _, rfl, rfl, by decide⟩
  | flag v =>
    cases v with
    | true => exact ⟨_, _, rfl, rfl, by decide⟩
    | false => exact ⟨_, _, rfl, rfl, by decide⟩
  | whole v =>
    rw [Datum.write, decimalInt]
    split
    · exact ⟨_, _, rfl, rfl, by decide⟩
    · obtain ⟨d, ds, form⟩ := List.exists_cons_of_ne_nil (decimal_ne_nil v.natAbs)
      have digit : isDigit d = true := isDigit_of_mem_decimal (form ▸ List.mem_cons_self)
      exact ⟨d, ds, form, isSpace_of_isDigit digit, ne_of_isDigit digit rfl⟩
  | list items => exact ⟨_, _, rfl, rfl, by decide⟩
  | map entries => exact ⟨_, _, rfl, rfl, by decide⟩

/-- Where a list has just been opened its first item is due, unless it ends there. -/
theorem step_opened {b : UInt8} (list : inList stack = true) (visible : isSpace b = false)
    (more : b ≠ byte ']') :
    step r ⟨stack, .opened⟩ b = step r ⟨stack, .value (itemWant r stack) false⟩ b := by
  simp only [step, stepOpened, visible, list, if_neg more, Bool.false_eq_true, if_false, if_true]

theorem run_opened (d : Datum) (list : inList stack = true) (rest : Bytes) :
    run r ⟨stack, .opened⟩ (d.write ++ rest) =
      run r ⟨stack, .value (itemWant r stack) false⟩ (d.write ++ rest) := by
  obtain ⟨b, t, form, visible, more⟩ := exists_write_cons d
  rw [form, List.cons_append]
  exact run_cons_congr (step_opened list visible more) _

/-- The items of a list are taken one after the other, up to its end. -/
theorem run_items {item : Shape} {got : List Datum} {d : Datum} {ds : List Datum} {afterComma : Bool}
    (takes : ∀ e ∈ d :: ds, Takes r item e) (rest : Bytes) :
    run r ⟨.list item got :: stack, .value (.shape item) afterComma⟩
        (joined (writeItems (d :: ds)) ++ byte ']' :: rest) =
      run r (deliver (.list (got.reverse ++ d :: ds)) stack) rest := by
  induction ds generalizing got d afterComma with
  | nil =>
    have ends : step r (deliver d (.list item got :: stack)) (byte ']') =
        .ok (deliver (.list (d :: got).reverse) stack) := rfl
    rw [joined_writeItems_one, takes d List.mem_cons_self _ _ _ _ (.inr (.inl rfl)), run_cons ends,
      List.reverse_cons]
  | cons e ds ih =>
    obtain ⟨first, later⟩ := List.forall_mem_cons.mp takes
    have next : step r (deliver d (.list item got :: stack)) (byte ',') =
        .ok ⟨.list item (d :: got) :: stack, .value (.shape item) true⟩ := rfl
    rw [joined_writeItems, List.append_assoc, List.cons_append, first _ _ _ _ (.inl rfl),
      run_cons next, ih later, List.reverse_cons, List.append_assoc, List.singleton_append]

theorem takes_list {item : Shape} {items : List Datum} (h : ∀ d ∈ items, Takes r item d) :
    Takes r (.list item) (.list items) := by
  intro stack afterComma b rest closing
  have opens : step r ⟨stack, .value (.shape (.list item)) afterComma⟩ (byte '[') =
      .ok ⟨.list item [] :: stack, .opened⟩ := rfl
  rw [Datum.write, List.cons_append, List.cons_append, List.append_assoc, run_cons opens]
  cases items with
  | nil => rfl
  | cons d ds =>
    obtain ⟨t, first⟩ : ∃ t, joined (writeItems (d :: ds)) = d.write ++ t := by
      cases ds with
      | nil => exact ⟨[], (List.append_nil _).symm⟩
      | cons e ds => exact ⟨_, rfl⟩
    have begins : run r ⟨.list item [] :: stack, .opened⟩ (d.write ++ (t ++ byte ']' :: b :: rest)) =
        run r ⟨.list item [] :: stack, .value (.shape item) false⟩
          (d.write ++ (t ++ byte ']' :: b :: rest)) := run_opened d rfl _
    rw [← List.append_assoc, ← first] at begins
    rw [List.singleton_append, begins]
    exact run_items h (b :: rest)

/-! ## Maps -/

/-- A state in which the innermost object waits for a key. -/
structure AwaitsKey (r : Record) (stack : List Frame) (phase : Phase) : Prop where
  opens : step r ⟨stack, phase⟩ (byte '"') = .ok (openKey stack)
  reads : inSkipped stack = false

/-- A key and its value are taken by the innermost object. -/
theorem run_member {stack' : List Frame} {phase : Phase} {key : String} {shape : Shape} {d : Datum}
    {b : UInt8} (awaits : AwaitsKey r stack phase)
    (taken : takeKey r stack key = ⟨stack', .colon (.shape shape)⟩) (takes : Takes r shape d)
    (closing : IsClosing b) (rest : Bytes) :
    run r ⟨stack, phase⟩ (member key d.write ++ b :: rest) = run r (deliver d stack') (b :: rest) := by
  have colon : step r ⟨stack', .colon (.shape shape)⟩ (byte ':') =
      .ok ⟨stack', .value (.shape shape) false⟩ := rfl
  have named : openKey stack = ⟨stack, .string true .record [] .none⟩ := by
    simp only [openKey, awaits.reads, Bool.false_eq_true, if_false]
  have made : (if true then .ok (takeKey r stack key) else takeScalar r stack .record (.text key)) =
      Except.ok (ε := Stop) ⟨stack', .colon (.shape shape)⟩ := congrArg Except.ok taken
  rw [member, List.append_assoc, quote_append, run_cons awaits.opens, named,
    run_string key rfl made, List.cons_append, run_cons colon]
  exact takes _ _ _ _ closing

/-- The entries of a map are taken one after the other, up to its end. -/
theorem run_entries {item : Shape} {got : List (String × Datum)} {key : String} {phase : Phase}
    {e : String × Datum} {es : List (String × Datum)} (takes : ∀ e' ∈ e :: es, Takes r item e'.2)
    (awaits : AwaitsKey r (.map item got key :: stack) phase) (rest : Bytes) :
    run r ⟨.map item got key :: stack, phase⟩
        (joined (writeEntries (e :: es)) ++ byte '\x7d' :: rest) =
      run r (deliver (.map (got.reverse ++ e :: es)) stack) rest := by
  induction es generalizing got key phase e with
  | nil =>
    have ends : step r (deliver e.2 (.map item got e.1 :: stack)) (byte '\x7d') =
        .ok (deliver (.map (e :: got).reverse) stack) := rfl
    rw [joined_writeEntries_one, run_member awaits rfl (takes e List.mem_cons_self) (.inr (.inr rfl)),
      run_cons ends, List.reverse_cons]
  | cons e' es ih =>
    obtain ⟨first, later⟩ := List.forall_mem_cons.mp takes
    have next : step r (deliver e.2 (.map item got e.1 :: stack)) (byte ',') =
        .ok ⟨.map item (e :: got) e.1 :: stack, .key⟩ := rfl
    rw [joined_writeEntries, List.append_assoc, List.cons_append,
      run_member awaits rfl first (.inl rfl), run_cons next, ih later ⟨rfl, rfl⟩, List.reverse_cons,
      List.append_assoc, List.singleton_append]

theorem takes_map {item : Shape} {entries : List (String × Datum)}
    (h : ∀ e ∈ entries, Takes r item e.2) : Takes r (.map item) (.map entries) := by
  intro stack afterComma b rest closing
  have opens : step r ⟨stack, .value (.shape (.map item)) afterComma⟩ (byte '\x7b') =
      .ok ⟨.map item [] "" :: stack, .opened⟩ := rfl
  rw [Datum.write, List.cons_append, List.cons_append, List.append_assoc,
    run_cons opens]
  cases entries with
  | nil => rfl
  | cons e es => exact run_entries h ⟨rfl, rfl⟩ (b :: rest)

/-- Every datum of a shape is taken where the shape is asked for. -/
theorem takes_of_holds {shape : Shape} {d : Datum} (h : shape.Holds d) : Takes r shape d := by
  induction shape generalizing d with
  | text =>
    cases d with
    | text s => exact takes_text s
    | _ => cases h
  | flag =>
    cases d with
    | flag v => exact takes_flag v
    | _ => cases h
  | whole range =>
    cases d with
    | whole v => exact takes_whole h
    | _ => cases h
  | list item ih =>
    cases d with
    | list items => exact takes_list fun d member => ih (h d member)
    | _ => cases h
  | map item ih =>
    cases d with
    | map entries => exact takes_map fun e member => ih (h e member)
    | _ => cases h

end Machine

end GuideRig.Json
