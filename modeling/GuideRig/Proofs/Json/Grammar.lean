/-
# GuideRig.Proofs.Json.Grammar -- JSON as a format, without a reader

What JSON texts are is said here by a grammar of its own (`IsValue`), with spaces wherever the format
allows them, and no reader or writer of this library takes part in it. A list is told apart into the texts
of its items (`IsList`) and an object into the texts of its keys and values (`IsObject`).
-/

import Mathlib.Tactic.Common
import GuideRig.Text.Ascii

namespace GuideRig.Json

open Ascii

/-! ## Spaces, numbers and strings -/

/-- A byte that counts for nothing between two parts of a text. -/
def IsSpace (b : UInt8) : Prop := b = byte ' ' ∨ b = byte '\t' ∨ b = byte '\n' ∨ b = byte '\r'

instance (b : UInt8) : Decidable (IsSpace b) := inferInstanceAs (Decidable (_ ∨ _))

/-- Nothing but spaces. -/
def IsGap (s : Bytes) : Prop := ∀ b ∈ s, IsSpace b

instance (s : Bytes) : Decidable (IsGap s) := List.decidableBAll IsSpace s

/-- Digits, and at least one. -/
def IsDigits (s : Bytes) : Prop := s ≠ [] ∧ ∀ d ∈ s, isDigit d = true

instance (s : Bytes) : Decidable (IsDigits s) :=
  decidable_of_iff (s ≠ [] ∧ s.all isDigit = true) (and_congr_right fun _ => List.all_eq_true)

/-- The digits before a point: no zero leads them. -/
def IsWhole (s : Bytes) : Prop := IsDigits s ∧ (s.head? = some (byte '0') → s = [byte '0'])

instance (s : Bytes) : Decidable (IsWhole s) := inferInstanceAs (Decidable (_ ∧ _))

/-- The part of a number after its whole part, if there is one. -/
def IsFraction (s : Bytes) : Prop := s = [] ∨ ∃ ds, s = byte '.' :: ds ∧ IsDigits ds

/-- The exponent of a number, if there is one. -/
def IsExponent (s : Bytes) : Prop :=
  s = [] ∨ ∃ mark sign ds, s = mark :: sign ++ ds ∧ (mark = byte 'e' ∨ mark = byte 'E') ∧
    (sign = [] ∨ sign = [byte '+'] ∨ sign = [byte '-']) ∧ IsDigits ds

/-- The text of a number. -/
inductive IsNumber : Bytes → Prop
  | mk {sign whole fraction exponent : Bytes} : sign = [] ∨ sign = [byte '-'] → IsWhole whole →
      IsFraction fraction → IsExponent exponent →
      IsNumber (sign ++ whole ++ fraction ++ exponent)

/-- The characters of a string between its quotes. -/
inductive IsContent : Bytes → Prop
  | nil : IsContent []
  | plain {c : Char} {s : Bytes} : c ≠ '"' → c ≠ '\\' → 0x20 ≤ c.toNat → IsContent s →
      IsContent (Utf8.ofChar c ++ s)
  | letter {b : UInt8} {s : Bytes} : b ∈ bytes "\"\\/bfnrt" → IsContent s →
      IsContent (byte '\\' :: b :: s)
  | number {ds s : Bytes} : ds.length = 4 → (∀ d ∈ ds, (hexValue? d).isSome) → IsContent s →
      IsContent (byte '\\' :: byte 'u' :: ds ++ s)

/-- The text of a string. -/
inductive IsString : Bytes → Prop
  | mk {s : Bytes} : IsContent s → IsString (byte '"' :: s ++ [byte '"'])

/-! ## Lists and objects -/

/-- Parts with a comma between each two, and spaces around each. -/
inductive IsRow : List Bytes → Bytes → Prop
  | last {before part after : Bytes} : IsGap before → IsGap after →
      IsRow [part] (before ++ part ++ after)
  | more {before part after rest : Bytes} {parts : List Bytes} : IsGap before → IsGap after →
      IsRow parts rest → IsRow (part :: parts) (before ++ part ++ after ++ byte ',' :: rest)

/-- Parts in a pair of brackets. -/
inductive IsEnclosed (opening closing : UInt8) : List Bytes → Bytes → Prop
  | empty {gap : Bytes} : IsGap gap → IsEnclosed opening closing [] (opening :: gap ++ [closing])
  | row {parts : List Bytes} {body : Bytes} : IsRow parts body →
      IsEnclosed opening closing parts (opening :: body ++ [closing])

/-- A key and a value with a colon between them. -/
inductive IsMember : Bytes × Bytes → Bytes → Prop
  | mk {key before after value : Bytes} : IsGap before → IsGap after →
      IsMember (key, value) (key ++ before ++ byte ':' :: (after ++ value))

/-- The text of a value. -/
inductive IsValue : Bytes → Prop
  | null : IsValue (bytes "null")
  | flag {b : Bool} : IsValue (bytes (if b then "true" else "false"))
  | number {s : Bytes} : IsNumber s → IsValue s
  | string {s : Bytes} : IsString s → IsValue s
  | list {items : List Bytes} {s : Bytes} : IsEnclosed (byte '[') (byte ']') items s →
      (∀ item ∈ items, IsValue item) → IsValue s
  | object {members : List (Bytes × Bytes)} {parts : List Bytes} {s : Bytes} :
      IsEnclosed (byte '\x7b') (byte '\x7d') parts s → List.Forall₂ IsMember members parts →
      (∀ m ∈ members, IsString m.1) → (∀ m ∈ members, IsValue m.2) → IsValue s

/-- A text is a list of items, told by the texts of these. -/
def IsList (s : Bytes) (items : List Bytes) : Prop :=
  IsEnclosed (byte '[') (byte ']') items s ∧ ∀ item ∈ items, IsValue item

/-- A text is an object of keys and values, told by the texts of these. -/
def IsObject (s : Bytes) (members : List (Bytes × Bytes)) : Prop :=
  ∃ parts, IsEnclosed (byte '\x7b') (byte '\x7d') parts s ∧ List.Forall₂ IsMember members parts ∧
    ∀ m ∈ members, IsString m.1 ∧ IsValue m.2

end GuideRig.Json
