/-
# GuideRig.Proofs.Text.Percent -- hexadecimal digits, and the one step that reading escapes takes

A byte is a digit of a value when it is written for that value in either case (`IsHexDigit`), and two
digits name the byte whose upper and lower halves they are (`hexPair?_eq_some_iff`). Reading escapes
takes a step over an escape or over one byte that begins none; nothing else happens at any byte.
-/

import GuideRig.Proofs.Text.Utf8
import GuideRig.Text.Percent

namespace GuideRig

namespace Ascii

/-! ## Signs -/

/-- A sign of ASCII stands in no form but its own. -/
theorem eq_of_byte_mem_ofChar {c d : Char} (ascii : d.toNat < 0x80)
    (h : byte d ∈ Utf8.ofChar c) : c = d := by
  have value : (byte d).toNat = d.toNat := Utf8.toNat_toUInt8 (by omega)
  have same := Utf8.toNat_of_mem_ofChar h (by omega)
  rw [← Char.ofNat_toNat c, same, value, Char.ofNat_toNat]

/-- A text of ASCII has the bytes that it was made of. -/
theorem encode_text {s : Bytes} (ascii : ∀ b ∈ s, b.toNat < 0x80) : Utf8.encode (text s) = s := by
  rw [Utf8.encode, text, String.toList_ofList]
  induction s with
  | nil => rfl
  | cons b s ih =>
    obtain ⟨first, later⟩ := List.forall_mem_cons.mp ascii
    rw [List.map_cons, List.flatMap_cons, Utf8.ofChar_ofNat_one first, ih later]
    rfl

/-! ## Hexadecimal digits -/

/-- A byte is the hexadecimal digit of a value, in capitals or in small letters. -/
def IsHexDigit (v : Nat) (d : UInt8) : Prop := v < 16 ∧ (d = upperHex v ∨ d = lowerHex v)

/-- The value of a byte is the one that it is a digit of. -/
theorem hexValue?_eq_some_iff {v : Nat} {d : UInt8} : hexValue? d = some v ↔ IsHexDigit v d := by
  have digit : (byte '0').toNat = 48 ∧ (byte '9').toNat = 57 := ⟨rfl, rfl⟩
  have capital : (byte 'A').toNat = 65 ∧ (byte 'F').toNat = 70 := ⟨rfl, rfl⟩
  have small : (byte 'a').toNat = 97 ∧ (byte 'f').toNat = 102 := ⟨rfl, rfl⟩
  constructor
  · intro h
    simp only [hexValue?, isDigit, Bool.and_eq_true, decide_eq_true_eq, UInt8.le_iff_toNat_le] at h
    split at h
    · have value := Option.some.inj h
      refine ⟨by omega, .inl ?_⟩
      rw [upperHex, if_pos (by omega), ← UInt8.toNat_inj, Utf8.toNat_toUInt8 (by omega)]
      omega
    split at h
    · have value := Option.some.inj h
      refine ⟨by omega, .inl ?_⟩
      rw [upperHex, if_neg (by omega), ← UInt8.toNat_inj, Utf8.toNat_toUInt8 (by omega)]
      omega
    split at h
    · have value := Option.some.inj h
      refine ⟨by omega, .inr ?_⟩
      rw [lowerHex, if_neg (by omega), ← UInt8.toNat_inj, Utf8.toNat_toUInt8 (by omega)]
      omega
    · cases h
  · have table : ∀ v < 16, hexValue? (upperHex v) = some v ∧ hexValue? (lowerHex v) = some v := by
      decide
    rintro ⟨below, rfl | rfl⟩
    · exact (table v below).1
    · exact (table v below).2

theorem hexValue?_lowerHex {v : Nat} (h : v < 16) : hexValue? (lowerHex v) = some v :=
  hexValue?_eq_some_iff.mpr ⟨h, .inr rfl⟩

/-- Two digits name the byte of whose halves they are the digits. -/
theorem hexPair?_eq_some_iff {h l b : UInt8} :
    hexPair? h l = some b ↔ IsHexDigit (b.toNat / 16) h ∧ IsHexDigit (b.toNat % 16) l := by
  rw [← hexValue?_eq_some_iff, ← hexValue?_eq_some_iff, hexPair?]
  constructor
  · intro named
    split at named
    · rename_i high low upper lower
      have high_lt := (hexValue?_eq_some_iff.mp upper).1
      have low_lt := (hexValue?_eq_some_iff.mp lower).1
      have value : b.toNat = high * 16 + low := by
        rw [← Option.some.inj named]
        exact Utf8.toNat_toUInt8 (by omega)
      rw [upper, lower, value]
      constructor
      · congr 1
        omega
      · congr 1
        omega
    · cases named
  · rintro ⟨upper, lower⟩
    rw [upper, lower]
    show some _ = _
    rw [Nat.mul_comm, Nat.div_add_mod]
    exact congrArg some UInt8.ofNat_toNat

/-- A byte with no value is no digit. -/
theorem IsHexDigit.ne {v : Nat} {d b : UInt8} (h : IsHexDigit v d) (valueless : hexValue? b = none) :
    b ≠ d := by
  rintro rfl
  rw [hexValue?_eq_some_iff.mpr h] at valueless
  cases valueless

end Ascii

namespace Percent

open Ascii

/-! ## Steps -/

/-- Over an escape reading takes the byte that it names. -/
theorem decode_escape {h l b : UInt8} (named : hexPair? h l = some b) (rest : Bytes) :
    decode (byte '%' :: h :: l :: rest) = b :: decode rest := by
  rw [decode, if_pos rfl, named]

/-- A byte that begins no escape is read as it is. -/
theorem decode_asIs {a : UInt8} {rest : Bytes}
    (bare : ∀ h l t, a = byte '%' → rest = h :: l :: t → hexPair? h l = none) :
    decode (a :: rest) = a :: decode rest := by
  match rest with
  | [] => rfl
  | [b] => rfl
  | h :: l :: t =>
    rw [decode]
    by_cases percent : a = byte '%'
    · rw [if_pos percent, bare h l t percent rfl]
    · rw [if_neg percent]

end Percent

end GuideRig
