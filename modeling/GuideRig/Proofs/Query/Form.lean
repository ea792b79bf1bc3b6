/-
# GuideRig.Proofs.Query.Form -- what is written as a form query is read back

Writing a text leaves letters, digits and four signs as they are, and makes a plus sign of a space and an
escape of every other byte; reading takes one of these steps at a time back (`decode_written`). What is
written holds none of the two signs at which a query is cut, so that a pair stays a pair whatever its name
and value are (`pairs_ofPair`).
-/

import GuideRig.Proofs.Query

namespace GuideRig.Query

open Ascii

/-! ## Bytes of a form -/

/-- The bytes that a form query is made of. -/
def IsFormByte (b : UInt8) : Prop := isAlphanumeric b = true ∨ b ∈ bytes "*-._+%="

instance (b : UInt8) : Decidable (IsFormByte b) := inferInstanceAs (Decidable (_ ∨ _))

/-- The bytes that a name or value is written with. -/
theorem isPlain_of_mem_encode {s : String} {d : UInt8} (h : d ∈ encode s) :
    isPlain d = true ∨ d = byte '+' ∨ d = byte '%' := by
  have digits : ∀ n < 16, isPlain (upperHex n) = true := by decide
  obtain ⟨b, -, written⟩ := List.mem_flatMap.mp h
  have size := b.toNat_lt
  split at written
  · exact .inr (.inl (List.mem_singleton.mp written))
  split at written
  · rename_i plain
    rw [List.mem_singleton.mp written]
    exact .inl plain
  · simp only [Percent.escape, List.mem_cons, List.not_mem_nil, or_false] at written
    rcases written with rfl | rfl | rfl
    · exact .inr (.inr rfl)
    · exact .inl (digits _ (by omega))
    · exact .inl (digits _ (by omega))

/-- A sign that does not stand for itself is not written, but for the two that writing makes use of. -/
theorem not_mem_encode {d : UInt8} (sign : isPlain d = false) (plus : d ≠ byte '+')
    (percent : d ≠ byte '%') (s : String) : d ∉ encode s := by
  intro h
  rcases isPlain_of_mem_encode h with plain | same | same
  · rw [sign] at plain
    cases plain
  · exact plus same
  · exact percent same

theorem isFormByte_of_mem_ofPair {name value : String} {d : UInt8} (h : d ∈ ofPair name value) :
    IsFormByte d := by
  have part : ∀ s : String, d ∈ encode s → IsFormByte d := by
    intro s h
    rcases isPlain_of_mem_encode h with plain | rfl | rfl
    · simp only [isPlain, Bool.or_eq_true, beq_iff_eq] at plain
      rcases plain with (((letter | rfl) | rfl) | rfl) | rfl
      · exact .inl letter
      all_goals decide
    all_goals decide
  rw [ofPair, List.mem_append, List.mem_cons] at h
  rcases h with before | rfl | after
  · exact part name before
  · decide
  · exact part value after

/-! ## Reading what is written -/

/-- Whatever way a byte is written in, it is one step to read it. -/
theorem decode_written (b : UInt8) (rest : Bytes) :
    decode ((if b = byte ' ' then [byte '+'] else if isPlain b then [b] else Percent.escape b) ++ rest) =
      b :: decode rest := by
  split
  · rename_i space
    rw [space]
    exact decode_plus rest
  split
  · rename_i plain
    apply decode_asIs
    · rintro rfl
      exact absurd plain (by decide)
    · rintro h l t rfl -
      exact absurd plain (by decide)
  · have size := b.toNat_lt
    have named : hexPair? (upperHex (b.toNat / 16)) (upperHex (b.toNat % 16)) = some b :=
      hexPair?_eq_some_iff.mpr ⟨⟨by omega, .inl rfl⟩, ⟨by omega, .inl rfl⟩⟩
    exact decode_escape named rest

theorem decode_encode (s : String) : decode (encode s) = Utf8.encode s := by
  rw [encode]
  induction Utf8.encode s with
  | nil => rfl
  | cons b rest ih => rw [List.flatMap_cons, decode_written, ih]

/-- The query of a pair has that pair, and no other. -/
theorem pairs_ofPair (name value : String) : pairs (ofPair name value) = [(name, value)] := by
  have unequal : byte '=' ∉ encode name := not_mem_encode (by decide) (by decide) (by decide) name
  have whole : byte '&' ∉ ofPair name value := by
    have part : ∀ s, byte '&' ∉ encode s := not_mem_encode (by decide) (by decide) (by decide)
    rw [ofPair, List.mem_append, List.mem_cons]
    rintro (before | sign | after)
    · exact part name before
    · cases sign
    · exact part value after
  have parts : split (ofPair name value) = (encode name, encode value) :=
    (split_of_not_mem unequal _).2
  have some_byte : (ofPair name value).isEmpty = false :=
    List.isEmpty_eq_false_iff.mpr (List.append_ne_nil_of_right_ne_nil _ (List.cons_ne_nil _ _))
  rw [pairs, bytePairs, cut_of_not_mem whole, List.filter_cons_of_pos (by rw [some_byte]; rfl),
    List.filter_nil, List.map_singleton, List.map_singleton, parts, decode_encode, decode_encode]
  dsimp only
  rw [Utf8.lossy_encode, Utf8.lossy_encode]

example : ofPair "q" "k&r=1 ý" = bytes "q=k%26r%3D1+%C3%BD" := by decide

end GuideRig.Query
