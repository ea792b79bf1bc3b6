/-
# GuideRig.Proofs.Json.Printer -- what is written is JSON

Each part of a written datum is one of the grammar: a quoted text is a string, an integer a number, and a
datum a value. The written form of a list is the list of its written items (`isList_write`), that of a map
the object of its quoted keys and written values (`isObject_write`).
-/

import Mathlib.Data.List.Forall2
import GuideRig.Json.Machine
import GuideRig.Json.Printer
import GuideRig.Proofs.Json.Grammar
import GuideRig.Proofs.Text.Decimal
import GuideRig.Proofs.Text.Percent

namespace GuideRig.Json

open Ascii

/-! ## Written characters -/

/-- A character is written by a letter, by its number, or as it is. -/
theorem escapeChar_cases (c : Char) :
    (∃ b a, escapeChar c = [byte '\\', b] ∧ b ∈ bytes "\"\\/bfnrt" ∧ b ≠ byte 'u' ∧
      Machine.shortEscape? b = some a ∧ Utf8.ofChar c = [a]) ∨
    (c.toNat < 0x20 ∧ escapeChar c = [byte '\\', byte 'u', byte '0', byte '0',
      lowerHex (c.toNat / 16), lowerHex (c.toNat % 16)]) ∨
    (c ≠ '"' ∧ c ≠ '\\' ∧ 0x20 ≤ c.toNat ∧ escapeChar c = Utf8.ofChar c) := by
  by_cases short : c = '"' ∨ c = '\\' ∨ c = '\x08' ∨ c = '\x0c' ∨ c = '\n' ∨ c = '\r' ∨ c = '\t'
  · left
    rcases short with rfl | rfl | rfl | rfl | rfl | rfl | rfl
    all_goals exact ⟨_, _, rfl, by decide, by decide, rfl, by decide⟩
  · right
    simp only [not_or] at short
    obtain ⟨quote, slash, back, feed, line, home, tab⟩ := short
    by_cases control : c.toNat < 0x20
    · left
      exact ⟨control, by simp only [escapeChar, *, if_false, if_true]⟩
    · right
      exact ⟨quote, slash, Nat.not_lt.mp control, by simp only [escapeChar, *, if_false]⟩

theorem quote_append (s : String) (rest : Bytes) :
    quote s ++ rest = byte '"' :: (s.toList.flatMap escapeChar ++ byte '"' :: rest) := by
  rw [quote, List.cons_append, List.cons_append, List.append_assoc, List.singleton_append]

/-! ## Strings and numbers -/

theorem isString_quote (s : String) : IsString (quote s) := by
  constructor
  induction s.toList with
  | nil => exact .nil
  | cons c cs ih =>
    rw [List.flatMap_cons]
    rcases escapeChar_cases c with ⟨b, a, written, isLetter, -⟩ | ⟨control, written⟩ |
      ⟨quote, slash, visible, written⟩
    · rw [written]
      exact .letter isLetter ih
    · rw [written]
      have high := hexValue?_lowerHex (v := c.toNat / 16) (by omega)
      have low := hexValue?_lowerHex (v := c.toNat % 16) (by omega)
      have digits : ∀ d ∈ [byte '0', byte '0', lowerHex (c.toNat / 16), lowerHex (c.toNat % 16)],
          (hexValue? d).isSome := by
        simp only [List.forall_mem_cons, high, low, Option.isSome_some, true_and]
        exact ⟨rfl, rfl, List.forall_mem_nil _⟩
      exact .number rfl digits ih
    · rw [written]
      exact .plain quote slash visible ih

/-! ## Numbers -/

theorem isWhole_decimal (n : Nat) : IsWhole (decimal n) := by
  refine ⟨⟨decimal_ne_nil n, fun d => isDigit_of_mem_decimal⟩, ?_⟩
  intro leads
  by_cases h : n = 0
  · rw [h, decimal_of_lt (by decide)]
    rfl
  · obtain ⟨d, ds, form, other⟩ := exists_decimal_cons h
    rw [form] at leads
    exact absurd (Option.some.inj leads) other

theorem isNumber_decimalInt (v : Int) : IsNumber (decimalInt v) := by
  have unsigned {sign : Bytes} (isSign : sign = [] ∨ sign = [byte '-']) :
      IsNumber (sign ++ decimal v.natAbs) := by
    have made := IsNumber.mk isSign (isWhole_decimal v.natAbs) (.inl rfl) (.inl rfl)
    rwa [List.append_nil, List.append_nil] at made
  rw [decimalInt]
  split
  · exact unsigned (.inr rfl)
  · exact unsigned (.inl rfl)

/-! ## Written items and entries -/

theorem joined_writeItems_one (d : Datum) : joined (writeItems [d]) = d.write := rfl

theorem joined_writeItems (d e : Datum) (ds : List Datum) :
    joined (writeItems (d :: e :: ds)) = d.write ++ byte ',' :: joined (writeItems (e :: ds)) := rfl

theorem joined_writeEntries_one (e : String × Datum) :
    joined (writeEntries [e]) = member e.1 e.2.write := rfl

theorem joined_writeEntries (e e' : String × Datum) (es : List (String × Datum)) :
    joined (writeEntries (e :: e' :: es)) =
      member e.1 e.2.write ++ byte ',' :: joined (writeEntries (e' :: es)) := rfl

theorem writeItems_eq (ds : List Datum) : writeItems ds = ds.map Datum.write := by
  induction ds with
  | nil => rfl
  | cons d ds ih => rw [writeItems, ih, List.map_cons]

theorem writeEntries_eq (es : List (String × Datum)) :
    writeEntries es = es.map fun e => member e.1 e.2.write := by
  induction es with
  | nil => rfl
  | cons e es ih => rw [writeEntries, ih, List.map_cons]

theorem isRow_joined (p : Bytes) (ps : List Bytes) : IsRow (p :: ps) (joined (p :: ps)) := by
  have none : IsGap [] := List.forall_mem_nil _
  induction ps generalizing p with
  | nil =>
    have row : IsRow [p] ([] ++ p ++ []) := .last none none
    rwa [List.nil_append, List.append_nil] at row
  | cons q ps ih =>
    have row : IsRow (p :: q :: ps) ([] ++ p ++ [] ++ byte ',' :: joined (q :: ps)) :=
      .more none none (ih q)
    rwa [List.nil_append, List.append_nil] at row

theorem isEnclosed_joined (opening closing : UInt8) (parts : List Bytes) :
    IsEnclosed opening closing parts (opening :: joined parts ++ [closing]) := by
  cases parts with
  | nil => exact .empty (List.forall_mem_nil _)
  | cons p ps => exact .row (isRow_joined p ps)

theorem isMember_member (key : String) (value : Bytes) :
    IsMember (quote key, value) (member key value) := by
  have none : IsGap [] := List.forall_mem_nil _
  have made : IsMember (quote key, value) (quote key ++ [] ++ byte ':' :: ([] ++ value)) :=
    .mk none none
  rwa [List.append_nil, List.nil_append] at made

theorem isMember_written (es : List (String × Datum)) :
    List.Forall₂ IsMember (es.map fun e => (quote e.1, e.2.write)) (writeEntries es) := by
  rw [writeEntries_eq, List.forall₂_map_left_iff, List.forall₂_map_right_iff]
  exact List.forall₂_same.mpr fun e _ => isMember_member e.1 e.2.write

/-! ## Data -/

mutual

/-- A written datum is a value. -/
theorem isValue_write : ∀ d : Datum, IsValue d.write
  | .text s => .string (isString_quote s)
  | .flag _ => .flag
  | .whole v => .number (isNumber_decimalInt v)
  | .list items => .list (isEnclosed_joined _ _ _) (forall_isValue_items items)
  | .map entries => by
    refine .object (isEnclosed_joined _ _ _) (isMember_written entries) ?_ ?_
    · exact List.forall_mem_map.mpr fun e _ => isString_quote e.1
    · exact List.forall_mem_map.mpr (forall_isValue_entries entries)

theorem forall_isValue_items : ∀ ds : List Datum, ∀ item ∈ writeItems ds, IsValue item
  | [] => List.forall_mem_nil _
  | d :: ds => List.forall_mem_cons.mpr ⟨isValue_write d, forall_isValue_items ds⟩

theorem forall_isValue_entries : ∀ es : List (String × Datum), ∀ e ∈ es, IsValue e.2.write
  | [] => List.forall_mem_nil _
  | e :: es => List.forall_mem_cons.mpr ⟨isValue_write e.2, forall_isValue_entries es⟩

end

/-- A written list is the list of its written items. -/
theorem isList_write (items : List Datum) :
    IsList (Datum.list items).write (items.map Datum.write) := by
  rw [← writeItems_eq]
  exact ⟨isEnclosed_joined _ _ _, forall_isValue_items items⟩

/-- A written map is the object of its quoted keys and written values. -/
theorem isObject_write (entries : List (String × Datum)) :
    IsObject (Datum.map entries).write (entries.map fun e => (quote e.1, e.2.write)) := by
  refine ⟨_, isEnclosed_joined _ _ _, isMember_written entries, ?_⟩
  exact List.forall_mem_map.mpr fun e _ => ⟨isString_quote e.1, isValue_write e.2⟩

end GuideRig.Json
