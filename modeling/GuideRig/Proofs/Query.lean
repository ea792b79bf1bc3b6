/-
# GuideRig.Proofs.Query -- form queries, byte for byte

Each step of reading a form query has a relation of its own: `IsCut` for the pieces between the `&`
signs, `IsSplit` for name and value of a piece, `Decodes` for plus signs and escapes. They are stated
without reference to how the reader works, and the reader computes exactly them. `Gives` puts the three
together: the value that a query gives a parameter is the one of the first piece that names it and has
a value at all. `Spells` is the other direction, all the ways in which a text can be written.
-/

import Mathlib.Data.List.TakeWhile
import GuideRig.Proofs.Text.Percent
import GuideRig.Query

namespace GuideRig.Query

open Ascii

/-! ## Pieces -/

/-- A query consists of pieces with an `&` sign between each and the next. -/
inductive IsCut : Bytes → List Bytes → Prop
  | last {piece : Bytes} : byte '&' ∉ piece → IsCut piece [piece]
  | more {piece rest : Bytes} {pieces : List Bytes} : byte '&' ∉ piece → IsCut rest pieces →
      IsCut (piece ++ byte '&' :: rest) (piece :: pieces)

theorem cut_ne_nil (query : Bytes) : cut query ≠ [] := by
  cases query with
  | nil => exact List.cons_ne_nil _ _
  | cons b rest =>
    rw [cut]
    split
    · exact List.cons_ne_nil _ _
    · split <;> exact List.cons_ne_nil _ _

theorem cut_cons_of_ne {b : UInt8} (h : b ≠ byte '&') (rest : Bytes) :
    ∃ piece pieces, cut rest = piece :: pieces ∧ cut (b :: rest) = (b :: piece) :: pieces := by
  obtain ⟨piece, pieces, whole⟩ := List.exists_cons_of_ne_nil (cut_ne_nil rest)
  refine ⟨piece, pieces, whole, ?_⟩
  rw [cut, if_neg h, whole]

/-- What stands before an `&` sign and what stands after it are cut apart from each other. -/
theorem cut_append (before rest : Bytes) :
    cut (before ++ byte '&' :: rest) = cut before ++ cut rest := by
  induction before with
  | nil => rfl
  | cons b before ih =>
    by_cases amp : b = byte '&'
    · rw [List.cons_append, cut, if_pos amp, ih, cut, if_pos amp, List.cons_append]
    · obtain ⟨piece, pieces, first, whole⟩ := cut_cons_of_ne amp before
      rw [first, List.cons_append] at ih
      rw [List.cons_append, cut, if_neg amp, ih, whole, List.cons_append]

theorem cut_of_not_mem {piece : Bytes} (h : byte '&' ∉ piece) : cut piece = [piece] := by
  induction piece with
  | nil => rfl
  | cons b piece ih =>
    obtain ⟨first, later⟩ := not_or.mp (mt List.mem_cons.mpr h)
    rw [cut, if_neg (Ne.symm first), ih later]

theorem isCut_cut (query : Bytes) : IsCut query (cut query) := by
  induction query with
  | nil => exact .last List.not_mem_nil
  | cons b rest ih =>
    by_cases amp : b = byte '&'
    · rw [cut, if_pos amp, amp]
      exact .more List.not_mem_nil ih
    · obtain ⟨piece, pieces, first, whole⟩ := cut_cons_of_ne amp rest
      rw [first] at ih
      rw [whole]
      -- the byte joins the first piece, whether or not more pieces follow
      cases ih with
      | last bare =>
        exact .last (List.not_mem_cons_of_ne_of_not_mem (Ne.symm amp) bare)
      | more bare cut_rest =>
        exact .more (List.not_mem_cons_of_ne_of_not_mem (Ne.symm amp) bare) cut_rest

/-- A query has one way of being cut. -/
theorem isCut_iff {query : Bytes} {pieces : List Bytes} :
    IsCut query pieces ↔ cut query = pieces := by
  constructor
  · intro h
    induction h with
    | last bare => exact cut_of_not_mem bare
    | more bare cut_rest ih => rw [cut_append, cut_of_not_mem bare, ih, List.singleton_append]
  · rintro rfl
    exact isCut_cut query

example : cut (bytes "q=nebo&&slovo") = [bytes "q=nebo", [], bytes "slovo"] := by decide

/-! ## Names and values -/

/-- A piece is split at its first equals sign; without one it is all name. -/
inductive IsSplit : Bytes → Bytes → Bytes → Prop
  | bare {name : Bytes} : byte '=' ∉ name → IsSplit name name []
  | valued {name value : Bytes} : byte '=' ∉ name → IsSplit (name ++ byte '=' :: value) name value

theorem split_of_not_mem {name : Bytes} (h : byte '=' ∉ name) (value : Bytes) :
    split name = (name, []) ∧ split (name ++ byte '=' :: value) = (name, value) := by
  have all : ∀ b ∈ name, (b != byte '=') = true := fun b member =>
    bne_iff_ne.mpr fun same => h (same ▸ member)
  constructor
  · rw [split, List.takeWhile_eq_self_iff.mpr all, List.dropWhile_eq_nil_iff.mpr all, List.drop_nil]
  · rw [split, List.takeWhile_append_of_pos all, List.dropWhile_append_of_pos all,
      List.takeWhile_cons_of_neg (by simp), List.dropWhile_cons_of_neg (by simp), List.append_nil,
      List.drop_one, List.tail_cons]

theorem exists_isSplit (piece : Bytes) : ∃ name value, IsSplit piece name value := by
  by_cases valued : byte '=' ∈ piece
  · obtain ⟨name, value, rfl, plain⟩ := List.eq_append_cons_of_mem valued
    exact ⟨name, value, .valued plain⟩
  · exact ⟨piece, [], .bare valued⟩

/-- A piece has one name and one value. -/
theorem isSplit_iff {piece name value : Bytes} :
    IsSplit piece name value ↔ split piece = (name, value) := by
  have computed {name value : Bytes} (h : IsSplit piece name value) :
      split piece = (name, value) := by
    cases h with
    | bare plain => exact (split_of_not_mem plain []).1
    | valued plain => exact (split_of_not_mem plain value).2
  refine ⟨computed, fun h => ?_⟩
  obtain ⟨name', value', is_split⟩ := exists_isSplit piece
  obtain ⟨rfl, rfl⟩ := Prod.mk.inj ((computed is_split).symm.trans h)
  exact is_split

/-! ## Plus signs and escapes -/

/-- Bytes are read: a plus sign as a space, an escape as the byte it names, and any byte that is no plus
sign and begins no escape as it is. -/
inductive Decodes : Bytes → Bytes → Prop
  | nil : Decodes [] []
  | plus {s t : Bytes} : Decodes s t → Decodes (byte '+' :: s) (byte ' ' :: t)
  | escape {h l b : UInt8} {s t : Bytes} : IsHexDigit (b.toNat / 16) h →
      IsHexDigit (b.toNat % 16) l → Decodes s t → Decodes (byte '%' :: h :: l :: s) (b :: t)
  | asIs {b : UInt8} {s t : Bytes} : b ≠ byte '+' →
      (∀ h l rest, b = byte '%' → s = h :: l :: rest →
        ¬ ((∃ v, IsHexDigit v h) ∧ ∃ v, IsHexDigit v l)) →
      Decodes s t → Decodes (b :: s) (b :: t)

/-- Two bytes that are not both digits name nothing. -/
theorem hexPair?_eq_none_iff {h l : UInt8} :
    hexPair? h l = none ↔ ¬ ((∃ v, IsHexDigit v h) ∧ ∃ v, IsHexDigit v l) := by
  simp only [← hexValue?_eq_some_iff, hexPair?]
  cases hexValue? h with
  | none => simp
  | some a =>
    cases hexValue? l with
    | none => simp
    | some b => simp

/-- Plus signs and spaces are no digits, so that nothing becomes one when plus signs are read. -/
theorem hexPair?_spaced (h l : UInt8) :
    hexPair? (if h = byte '+' then byte ' ' else h) (if l = byte '+' then byte ' ' else l) =
      hexPair? h l := by
  have spaced (b : UInt8) : hexValue? (if b = byte '+' then byte ' ' else b) = hexValue? b := by
    by_cases plus : b = byte '+'
    · rw [if_pos plus, plus]
      rfl
    · rw [if_neg plus]
  rw [hexPair?, hexPair?, spaced, spaced]

theorem decode_plus (s : Bytes) : decode (byte '+' :: s) = byte ' ' :: decode s :=
  Percent.decode_asIs fun _ _ _ percent _ => absurd percent (by decide)

theorem decode_escape {h l b : UInt8} (named : hexPair? h l = some b) (s : Bytes) :
    decode (byte '%' :: h :: l :: s) = b :: decode s :=
  Percent.decode_escape ((hexPair?_spaced h l).trans named) _

theorem decode_asIs {b : UInt8} {s : Bytes} (plain : b ≠ byte '+')
    (bare : ∀ h l rest, b = byte '%' → s = h :: l :: rest → hexPair? h l = none) :
    decode (b :: s) = b :: decode s := by
  rw [decode, List.map_cons, if_neg plain]
  refine Percent.decode_asIs fun h l t percent rest => ?_
  obtain ⟨h', s', rfl, rfl, tail⟩ := List.map_eq_cons_iff.mp rest
  obtain ⟨l', s'', rfl, rfl, -⟩ := List.map_eq_cons_iff.mp tail
  rw [hexPair?_spaced]
  exact bare h' l' s'' percent rfl

theorem decodes_decode (s : Bytes) : Decodes s (decode s) := by
  -- on the length, since an escape takes three bytes at once
  induction size : s.length using Nat.strongRecOn generalizing s with
  | ind n ih =>
    cases s with
    | nil => exact .nil
    | cons b s =>
      by_cases plus : b = byte '+'
      · rw [plus, decode_plus]
        exact .plus (ih _ (by simp [← size]) s rfl)
      by_cases escape : ∃ h l rest x, b = byte '%' ∧ s = h :: l :: rest ∧ hexPair? h l = some x
      · obtain ⟨h, l, rest, x, rfl, rfl, named⟩ := escape
        obtain ⟨upper, lower⟩ := hexPair?_eq_some_iff.mp named
        rw [decode_escape named]
        exact .escape upper lower (ih _ (by simp [← size]; omega) rest rfl)
      · have bare : ∀ h l rest, b = byte '%' → s = h :: l :: rest → hexPair? h l = none := by
          intro h l rest percent whole
          refine Option.eq_none_iff_forall_ne_some.mpr fun x named => ?_
          exact escape ⟨h, l, rest, x, percent, whole, named⟩
        rw [decode_asIs plus bare]
        refine .asIs plus (fun h l rest percent whole => ?_) (ih _ (by simp [← size]) s rfl)
        exact hexPair?_eq_none_iff.mp (bare h l rest percent whole)

/-- Bytes have one reading. -/
theorem decodes_iff {s t : Bytes} : Decodes s t ↔ decode s = t := by
  constructor
  · intro h
    induction h with
    | nil => rfl
    | plus _ ih => rw [decode_plus, ih]
    | escape upper lower _ ih => rw [decode_escape (hexPair?_eq_some_iff.mpr ⟨upper, lower⟩), ih]
    | asIs plain bare _ ih =>
      rw [decode_asIs plain fun h l rest percent whole =>
        hexPair?_eq_none_iff.mpr (bare h l rest percent whole), ih]
  · rintro rfl
    exact decodes_decode s

example : decode (bytes "%zz+%3D%4") = bytes "%zz =%4" := by decide

/-! ## Values of a parameter -/

/-- A piece names a parameter and has a value. -/
def Carries (key piece value : Bytes) : Prop :=
  piece ≠ [] ∧ value ≠ [] ∧
    ∃ name raw, IsSplit piece name raw ∧ Decodes name key ∧ Decodes raw value

/-- The value that a query gives a parameter: that of the first piece that names it and has a value. -/
def Gives (key query value : Bytes) : Prop :=
  ∃ before piece after, IsCut query (before ++ piece :: after) ∧
    (∀ p ∈ before, ∀ v, ¬ Carries key p v) ∧ Carries key piece value

/-- The value of a piece, computed. -/
def carried? (key piece : Bytes) : Option Bytes :=
  if piece ≠ [] ∧ decode (split piece).2 ≠ [] ∧ decode (split piece).1 = key then
    some (decode (split piece).2)
  else none

/-- The value that a query gives a parameter, computed. -/
def value? (key query : Bytes) : Option Bytes := (cut query).findSome? (carried? key)

theorem carries_iff {key piece value : Bytes} :
    Carries key piece value ↔ carried? key piece = some value := by
  simp only [Carries, carried?, isSplit_iff, decodes_iff]
  constructor
  · rintro ⟨some_byte, some_value, name, raw, parts, named, read⟩
    rw [parts, named, read, if_pos ⟨some_byte, some_value, rfl⟩]
  · intro h
    split at h
    · rename_i carries
      rw [← Option.some.inj h]
      exact ⟨carries.1, carries.2.1, _, _, rfl, carries.2.2, rfl⟩
    · cases h

theorem gives_iff {key query value : Bytes} :
    Gives key query value ↔ value? key query = some value := by
  simp only [Gives, value?, List.findSome?_eq_some_iff, isCut_iff, carries_iff,
    ← Option.eq_none_iff_forall_ne_some]
  constructor
  · rintro ⟨before, piece, after, whole, none_before, carries⟩
    exact ⟨before, piece, after, whole, carries, none_before⟩
  · rintro ⟨before, piece, after, whole, carries, none_before⟩
    exact ⟨before, piece, after, whole, none_before, carries⟩

/-- A query looks for its value on one side of an `&` sign before the other. -/
theorem value?_append (key before rest : Bytes) :
    value? key (before ++ byte '&' :: rest) = (value? key before).or (value? key rest) := by
  rw [value?, cut_append, List.findSome?_append]
  rfl

/-- A piece with more of a query before and after it. -/
def around (before : Option Bytes) (piece : Bytes) (after : Option Bytes) : Bytes :=
  (match before with
    | some query => query ++ [byte '&']
    | none => []) ++ piece ++
    match after with
    | some query => byte '&' :: query
    | none => []

/-- A piece with a value gives it to the query, unless an earlier piece does. -/
theorem value?_around {key piece value : Bytes} {before : Option Bytes}
    (unnamed : ∀ query ∈ before, value? key query = none) (bare : byte '&' ∉ piece)
    (carries : carried? key piece = some value) (after : Option Bytes) :
    value? key (around before piece after) = some value := by
  -- first alone, then with what follows, and last behind what comes before
  have alone : value? key piece = some value := by
    rw [value?, cut_of_not_mem bare, List.findSome?_singleton, carries]
  have followed : value? key (around none piece after) = some value := by
    cases after with
    | none => rw [around, List.nil_append, List.append_nil, alone]
    | some query => rw [around, List.nil_append, value?_append, alone, Option.some_or]
  cases before with
  | none => exact followed
  | some query =>
    have whole : around (some query) piece after =
        query ++ byte '&' :: around none piece after := by
      simp [around]
    rw [whole, value?_append, unnamed query rfl, Option.none_or, followed]

/-! ## Spellings -/

/-- Every byte is written as an escape, with digits of either case. -/
inductive Escaped : Bytes → Bytes → Prop
  | nil : Escaped [] []
  | cons {b h l : UInt8} {s e : Bytes} : IsHexDigit (b.toNat / 16) h →
      IsHexDigit (b.toNat % 16) l → Escaped s e → Escaped (b :: s) (byte '%' :: h :: l :: e)

/-- A text is written in one of its ways: each character as it is, unless it has a meaning of its own,
or with all of its bytes escaped; a space also as a plus sign. -/
inductive Spells : List Char → Bytes → Prop
  | nil : Spells [] []
  | literal {c : Char} {cs : List Char} {e : Bytes} : c ≠ '&' → c ≠ '+' → c ≠ '%' →
      Spells cs e → Spells (c :: cs) (Utf8.ofChar c ++ e)
  | escaped {c : Char} {cs : List Char} {e rest : Bytes} : Escaped (Utf8.ofChar c) e →
      Spells cs rest → Spells (c :: cs) (e ++ rest)
  | plus {cs : List Char} {e : Bytes} : Spells cs e → Spells (' ' :: cs) (byte '+' :: e)

/-- A text without signs of a meaning of their own spells itself. -/
theorem spells_encode {s : String} (h : ∀ c ∈ s.toList, c ≠ '&' ∧ c ≠ '+' ∧ c ≠ '%') :
    Spells s.toList (Utf8.encode s) := by
  rw [Utf8.encode]
  generalize s.toList = cs at h
  induction cs with
  | nil => exact .nil
  | cons c cs ih =>
    obtain ⟨amp, plus, percent⟩ := h c List.mem_cons_self
    rw [List.flatMap_cons]
    exact .literal amp plus percent (ih fun c later => h c (List.mem_cons_of_mem _ later))

theorem decode_append_of_plain {s : Bytes} (plain : byte '+' ∉ s) (bare : byte '%' ∉ s)
    (rest : Bytes) : decode (s ++ rest) = s ++ decode rest := by
  induction s with
  | nil => rfl
  | cons b s ih =>
    rw [List.mem_cons, not_or] at plain bare
    rw [List.cons_append, decode_asIs (Ne.symm plain.1)
      (fun _ _ _ percent _ => absurd percent.symm bare.1), ih plain.2 bare.2, List.cons_append]

theorem decode_append_of_escaped {s e : Bytes} (h : Escaped s e) (rest : Bytes) :
    decode (e ++ rest) = s ++ decode rest := by
  induction h with
  | nil => rfl
  | cons upper lower _ ih =>
    rw [List.cons_append, List.cons_append, List.cons_append,
      decode_escape (hexPair?_eq_some_iff.mpr ⟨upper, lower⟩), ih, List.cons_append]

/-- Every spelling of a text is read as its bytes. -/
theorem Spells.decode_eq {cs : List Char} {e : Bytes} (h : Spells cs e) :
    decode e = cs.flatMap Utf8.ofChar := by
  induction h with
  | nil => rfl
  | literal amp plus percent _ ih =>
    -- of the two bytes that mean something in a value, neither stands in the character's form
    have plain := mt (eq_of_byte_mem_ofChar (d := '+') (by decide)) plus
    have bare := mt (eq_of_byte_mem_ofChar (d := '%') (by decide)) percent
    rw [decode_append_of_plain plain bare, ih, List.flatMap_cons]
  | escaped bytes _ ih => rw [decode_append_of_escaped bytes, ih, List.flatMap_cons]
  | plus _ ih =>
    rw [decode_plus, ih, List.flatMap_cons]
    rfl

theorem not_mem_of_escaped {s e : Bytes} (h : Escaped s e) {d : Char} (sign : d = '&' ∨ d = '=') :
    byte d ∉ e := by
  have valueless : hexValue? (byte d) = none := by rcases sign with rfl | rfl <;> rfl
  have other : byte d ≠ byte '%' := by rcases sign with rfl | rfl <;> decide
  induction h with
  | nil => exact List.not_mem_nil
  | cons upper lower _ ih =>
    simp only [List.mem_cons, not_or]
    exact ⟨other, upper.ne valueless, lower.ne valueless, ih⟩

/-- A spelling has no `&` sign, and an equals sign only where its text has one. -/
theorem Spells.mem {cs : List Char} {e : Bytes} (h : Spells cs e) {d : Char}
    (sign : d = '&' ∨ d = '=') (member : byte d ∈ e) : d ≠ '&' ∧ d ∈ cs := by
  have ascii : d.toNat < 0x80 := by rcases sign with rfl | rfl <;> decide
  induction h with
  | nil => cases member
  | literal amp plus percent _ ih =>
    rcases List.mem_append.mp member with first | later
    · have same := eq_of_byte_mem_ofChar ascii first
      exact ⟨same ▸ amp, same ▸ List.mem_cons_self⟩
    · exact ⟨(ih later).1, List.mem_cons_of_mem _ (ih later).2⟩
  | escaped bytes _ ih =>
    rcases List.mem_append.mp member with first | later
    · exact absurd first (not_mem_of_escaped bytes sign)
    · exact ⟨(ih later).1, List.mem_cons_of_mem _ (ih later).2⟩
  | plus _ ih =>
    rcases List.mem_cons.mp member with first | later
    · rcases sign with rfl | rfl <;> cases first
    · exact ⟨(ih later).1, List.mem_cons_of_mem _ (ih later).2⟩

/-- Spellings of a name and a value make a piece that carries the value. -/
theorem carried?_of_spells {key value : String} {k e : Bytes} (name : Spells key.toList k)
    (plain : '=' ∉ key.toList) (read : Spells value.toList e) (some_value : value ≠ "") :
    carried? (Utf8.encode key) (k ++ byte '=' :: e) = some (Utf8.encode value) := by
  have bare : byte '=' ∉ k := fun member => plain (name.mem (.inr rfl) member).2
  have bytes : Utf8.encode value ≠ [] := fun empty =>
    some_value (Utf8.encode_injective (t := "") empty)
  rw [carried?, (split_of_not_mem bare e).2, read.decode_eq, name.decode_eq, if_pos]
  · rfl
  · exact ⟨List.append_ne_nil_of_right_ne_nil _ (List.cons_ne_nil _ _), bytes, rfl⟩

end GuideRig.Query
