/-
# GuideRig.Proofs.Text.Utf8 -- reading undoes writing, and forgiving reading invents no text

Every character is read back from its UTF-8 form, whatever follows it (`pieces_ofChar_append`), and a
first piece that is a character is that character's form (`pieces_cons_cases`). From the two: texts are
read back from their bytes, and the forgiving reader yields a text without U+FFFD only on the bytes of
that very text (`lossy_eq_iff`).
-/

import Mathlib.Tactic.Common
import GuideRig.Text.Utf8

namespace GuideRig

namespace Utf8

/-! ## Code points and bytes -/

/-- A number that is the code point of a character. -/
def IsScalar (n : Nat) : Prop := n < 0xD800 ∨ 0xE000 ≤ n ∧ n < 0x110000

theorem isScalar_toNat (c : Char) : IsScalar c.toNat := by
  have valid := c.valid
  simp only [UInt32.isValidChar, Nat.isValidChar] at valid
  have same : c.toNat = c.val.toNat := rfl
  rw [IsScalar, same]
  omega

theorem toNat_ofNat {n : Nat} (h : IsScalar n) : (Char.ofNat n).toNat = n := by
  rw [IsScalar] at h
  have valid : n.isValidChar := by
    rw [Nat.isValidChar]
    omega
  rw [Char.ofNat, dif_pos valid]
  rfl

theorem isTail_iff {b : UInt8} : isTail b = true ↔ 0x80 ≤ b.toNat ∧ b.toNat ≤ 0xBF := by
  simp only [isTail, Bool.and_eq_true, decide_eq_true_eq, UInt8.le_iff_toNat_le]
  rfl

theorem opensThree_iff {a b : UInt8} : opensThree a b = true ↔
    (0xE0 ≤ a.toNat ∧ a.toNat ≤ 0xEF) ∧ (0x80 ≤ b.toNat ∧ b.toNat ≤ 0xBF) ∧
      (a.toNat = 0xE0 → 0xA0 ≤ b.toNat) ∧ (a.toNat = 0xED → b.toNat ≤ 0x9F) := by
  simp [opensThree, isTail_iff, UInt8.le_iff_toNat_le, ← UInt8.toNat_inj, and_assoc,
    ← imp_iff_not_or]

theorem opensFour_iff {a b : UInt8} : opensFour a b = true ↔
    (0xF0 ≤ a.toNat ∧ a.toNat ≤ 0xF4) ∧ (0x80 ≤ b.toNat ∧ b.toNat ≤ 0xBF) ∧
      (a.toNat = 0xF0 → 0x90 ≤ b.toNat) ∧ (a.toNat = 0xF4 → b.toNat ≤ 0x8F) := by
  simp [opensFour, isTail_iff, UInt8.le_iff_toNat_le, ← UInt8.toNat_inj, and_assoc,
    ← imp_iff_not_or]

theorem toNat_toUInt8 {n : Nat} (h : n < 256) : n.toUInt8.toNat = n :=
  UInt8.toNat_ofNat_of_lt' h

/-! ## Forms of characters -/

/-- The form of a character has one to four bytes; what they are is told by the code point. -/
theorem ofChar_cases (c : Char) :
    (∃ a, ofChar c = [a] ∧ c.toNat < 0x80 ∧ a.toNat = c.toNat) ∨
    (∃ a b, ofChar c = [a, b] ∧ (0x80 ≤ c.toNat ∧ c.toNat < 0x800) ∧
      a.toNat = 0xC0 + c.toNat / 0x40 ∧ b.toNat = 0x80 + c.toNat % 0x40) ∨
    (∃ a b d, ofChar c = [a, b, d] ∧ (0x800 ≤ c.toNat ∧ c.toNat < 0x10000) ∧
      a.toNat = 0xE0 + c.toNat / 0x1000 ∧ b.toNat = 0x80 + c.toNat / 0x40 % 0x40 ∧
      d.toNat = 0x80 + c.toNat % 0x40) ∨
    (∃ a b d e, ofChar c = [a, b, d, e] ∧ 0x10000 ≤ c.toNat ∧
      a.toNat = 0xF0 + c.toNat / 0x40000 ∧ b.toNat = 0x80 + c.toNat / 0x1000 % 0x40 ∧
      d.toNat = 0x80 + c.toNat / 0x40 % 0x40 ∧ e.toNat = 0x80 + c.toNat % 0x40) := by
  have scalar := isScalar_toNat c
  rw [IsScalar] at scalar
  rw [ofChar]
  by_cases one : c.toNat < 0x80
  · rw [if_pos one]
    exact .inl ⟨_, rfl, one, toNat_toUInt8 (by omega)⟩
  rw [if_neg one]
  by_cases two : c.toNat < 0x800
  · rw [if_pos two]
    exact .inr (.inl ⟨_, _, rfl, ⟨by omega, two⟩, toNat_toUInt8 (by omega),
      toNat_toUInt8 (by omega)⟩)
  rw [if_neg two]
  by_cases three : c.toNat < 0x10000
  · rw [if_pos three]
    exact .inr (.inr (.inl ⟨_, _, _, rfl, ⟨by omega, three⟩, toNat_toUInt8 (by omega),
      toNat_toUInt8 (by omega), toNat_toUInt8 (by omega)⟩))
  rw [if_neg three]
  exact .inr (.inr (.inr ⟨_, _, _, _, rfl, by omega, toNat_toUInt8 (by omega),
    toNat_toUInt8 (by omega), toNat_toUInt8 (by omega), toNat_toUInt8 (by omega)⟩))

/-- A byte of ASCII stands in no form but that of its own character. -/
theorem toNat_of_mem_ofChar {c : Char} {b : UInt8} (h : b ∈ ofChar c) (ascii : b.toNat < 0x80) :
    c.toNat = b.toNat := by
  rcases ofChar_cases c with ⟨a, form, size, ha⟩ | ⟨a, b', form, size, ha, hb⟩ |
    ⟨a, b', d, form, size, ha, hb, hd⟩ | ⟨a, b', d, e, form, size, ha, hb, hd, he⟩
  · rw [form, List.mem_singleton] at h
    rw [h, ha]
  -- in a form of more than one byte all of them are outside of ASCII
  all_goals
    rw [form] at h
    simp only [List.mem_cons, List.not_mem_nil, or_false] at h
    rcases h with rfl | rfl | rfl | rfl
    all_goals omega

/-! ## The first piece -/

theorem lt_0x80_iff {a : UInt8} : a < 0x80 ↔ a.toNat < 0x80 := UInt8.lt_iff_toNat_lt

theorem opensTwo_iff {a b : UInt8} : (0xC2 ≤ a && a ≤ 0xDF && isTail b) = true ↔
    (0xC2 ≤ a.toNat ∧ a.toNat ≤ 0xDF) ∧ (0x80 ≤ b.toNat ∧ b.toNat ≤ 0xBF) := by
  simp [isTail_iff, UInt8.le_iff_toNat_le]

@[simp]
theorem pieces_nil : pieces [] = [] := by
  rw [pieces.eq_def]

theorem pieces_one {a : UInt8} (h : a.toNat < 0x80) (s : Bytes) :
    pieces (a :: s) = some (Char.ofNat a.toNat) :: pieces s := by
  rw [pieces.eq_def]
  exact if_pos (lt_0x80_iff.mpr h)

theorem pieces_two {a b : UInt8} (low : 0xC2 ≤ a.toNat) (high : a.toNat ≤ 0xDF)
    (second : isTail b = true) (s : Bytes) : pieces (a :: b :: s) =
      some (Char.ofNat ((a.toNat - 0xC0) * 0x40 + bits b)) :: pieces s := by
  rw [pieces.eq_def]
  dsimp only
  rw [if_neg, if_pos (opensTwo_iff.mpr ⟨⟨low, high⟩, isTail_iff.mp second⟩)]
  rw [lt_0x80_iff]
  omega

theorem pieces_three {a b c : UInt8} (first : opensThree a b = true) (third : isTail c = true)
    (s : Bytes) : pieces (a :: b :: c :: s) =
      some (Char.ofNat (((a.toNat - 0xE0) * 0x40 + bits b) * 0x40 + bits c)) :: pieces s := by
  have lead := opensThree_iff.mp first
  rw [pieces.eq_def]
  dsimp only
  rw [if_neg, if_neg, if_pos first, if_pos third]
  · rw [opensTwo_iff]
    omega
  · rw [lt_0x80_iff]
    omega

theorem pieces_four {a b c d : UInt8} (first : opensFour a b = true) (third : isTail c = true)
    (fourth : isTail d = true) (s : Bytes) : pieces (a :: b :: c :: d :: s) =
      some (Char.ofNat ((((a.toNat - 0xF0) * 0x40 + bits b) * 0x40 + bits c) * 0x40 + bits d)) ::
        pieces s := by
  have lead := opensFour_iff.mp first
  rw [pieces.eq_def]
  dsimp only
  rw [if_neg, if_neg, if_neg, if_pos first, if_pos third, if_pos fourth]
  · rw [opensThree_iff]
    omega
  · rw [opensTwo_iff]
    omega
  · rw [lt_0x80_iff]
    omega

/-- A character is read back from its form, whatever follows. -/
theorem pieces_ofChar_append (c : Char) (rest : Bytes) :
    pieces (ofChar c ++ rest) = some c :: pieces rest := by
  have scalar := isScalar_toNat c
  rw [IsScalar] at scalar
  rcases ofChar_cases c with ⟨a, form, size, ha⟩ | ⟨a, b, form, size, ha, hb⟩ |
    ⟨a, b, d, form, size, ha, hb, hd⟩ | ⟨a, b, d, e, form, size, ha, hb, hd, he⟩
  · rw [form, List.singleton_append, pieces_one (by omega), ha, Char.ofNat_toNat]
  · have point : (a.toNat - 0xC0) * 0x40 + bits b = c.toNat := by
      unfold bits
      omega
    rw [form, List.cons_append, List.singleton_append, pieces_two (by omega) (by omega)
      (isTail_iff.mpr (by omega)), point, Char.ofNat_toNat]
  · have point : ((a.toNat - 0xE0) * 0x40 + bits b) * 0x40 + bits d = c.toNat := by
      unfold bits
      omega
    rw [form, List.cons_append, List.cons_append, List.singleton_append,
      pieces_three (opensThree_iff.mpr (by omega)) (isTail_iff.mpr (by omega)), point,
      Char.ofNat_toNat]
  · have point :
        (((a.toNat - 0xF0) * 0x40 + bits b) * 0x40 + bits d) * 0x40 + bits e = c.toNat := by
      unfold bits
      omega
    rw [form, List.cons_append, List.cons_append, List.cons_append, List.singleton_append,
      pieces_four (opensFour_iff.mpr (by omega)) (isTail_iff.mpr (by omega))
        (isTail_iff.mpr (by omega)), point, Char.ofNat_toNat]

theorem ofChar_ofNat_one {a : UInt8} (h : a.toNat < 0x80) : ofChar (Char.ofNat a.toNat) = [a] := by
  have point := toNat_ofNat (n := a.toNat) (.inl (by omega))
  -- only the form of its own length has this code point
  generalize Char.ofNat a.toNat = c at point
  rcases ofChar_cases c with ⟨a', form, size, ha⟩ | ⟨a', b, form, size, -⟩ |
    ⟨a', b, d, form, size, -⟩ | ⟨a', b, d, e, form, size, -⟩
  · rw [form, UInt8.toNat_inj.mp (ha.trans point)]
  all_goals omega

theorem ofChar_ofNat_two {a b : UInt8} (low : 0xC2 ≤ a.toNat) (high : a.toNat ≤ 0xDF)
    (second : isTail b = true) :
    ofChar (Char.ofNat ((a.toNat - 0xC0) * 0x40 + bits b)) = [a, b] := by
  rw [isTail_iff] at second
  have value : bits b = b.toNat - 0x80 := rfl
  have point := toNat_ofNat (n := (a.toNat - 0xC0) * 0x40 + bits b) (.inl (by omega))
  generalize Char.ofNat ((a.toNat - 0xC0) * 0x40 + bits b) = c at point ⊢
  rcases ofChar_cases c with ⟨a', form, size, -⟩ | ⟨a', b', form, size, ha, hb⟩ |
    ⟨a', b', d, form, size, -⟩ | ⟨a', b', d, e, form, size, -⟩
  · omega
  · have same_a : a' = a := UInt8.toNat_inj.mp (by omega)
    have same_b : b' = b := UInt8.toNat_inj.mp (by omega)
    rw [form, same_a, same_b]
  all_goals omega

theorem ofChar_ofNat_three {a b d : UInt8} (first : opensThree a b = true)
    (third : isTail d = true) :
    ofChar (Char.ofNat (((a.toNat - 0xE0) * 0x40 + bits b) * 0x40 + bits d)) = [a, b, d] := by
  rw [opensThree_iff] at first
  rw [isTail_iff] at third
  have value_b : bits b = b.toNat - 0x80 := rfl
  have value_d : bits d = d.toNat - 0x80 := rfl
  have point := toNat_ofNat (n := ((a.toNat - 0xE0) * 0x40 + bits b) * 0x40 + bits d) (by
    rw [IsScalar]
    omega)
  generalize Char.ofNat (((a.toNat - 0xE0) * 0x40 + bits b) * 0x40 + bits d) = c at point ⊢
  rcases ofChar_cases c with ⟨a', form, size, -⟩ | ⟨a', b', form, size, -⟩ |
    ⟨a', b', d', form, size, ha, hb, hd⟩ | ⟨a', b', d', e, form, size, -⟩
  · omega
  · omega
  · have same_a : a' = a := UInt8.toNat_inj.mp (by omega)
    have same_b : b' = b := UInt8.toNat_inj.mp (by omega)
    have same_d : d' = d := UInt8.toNat_inj.mp (by omega)
    rw [form, same_a, same_b, same_d]
  · omega

theorem ofChar_ofNat_four {a b d e : UInt8} (first : opensFour a b = true)
    (third : isTail d = true) (fourth : isTail e = true) :
    ofChar (Char.ofNat ((((a.toNat - 0xF0) * 0x40 + bits b) * 0x40 + bits d) * 0x40 + bits e)) =
      [a, b, d, e] := by
  rw [opensFour_iff] at first
  rw [isTail_iff] at third fourth
  have value_b : bits b = b.toNat - 0x80 := rfl
  have value_d : bits d = d.toNat - 0x80 := rfl
  have value_e : bits e = e.toNat - 0x80 := rfl
  have point := toNat_ofNat
    (n := (((a.toNat - 0xF0) * 0x40 + bits b) * 0x40 + bits d) * 0x40 + bits e) (by
      rw [IsScalar]
      omega)
  generalize
    Char.ofNat ((((a.toNat - 0xF0) * 0x40 + bits b) * 0x40 + bits d) * 0x40 + bits e) = c
    at point ⊢
  rcases ofChar_cases c with ⟨a', form, size, -⟩ | ⟨a', b', form, size, -⟩ |
    ⟨a', b', d', form, size, -⟩ | ⟨a', b', d', e', form, size, ha, hb, hd, he⟩
  · omega
  · omega
  · omega
  · have same_a : a' = a := UInt8.toNat_inj.mp (by omega)
    have same_b : b' = b := UInt8.toNat_inj.mp (by omega)
    have same_d : d' = d := UInt8.toNat_inj.mp (by omega)
    have same_e : e' = e := UInt8.toNat_inj.mp (by omega)
    rw [form, same_a, same_b, same_d, same_e]

/-- The first piece of any bytes: the form of a character, or some bytes that are none. -/
theorem pieces_cons_cases (a : UInt8) (s : Bytes) :
    (∃ c rest, a :: s = ofChar c ++ rest ∧ pieces (a :: s) = some c :: pieces rest) ∨
      ∃ skipped rest, skipped ≠ [] ∧ a :: s = skipped ++ rest ∧
        pieces (a :: s) = none :: pieces rest := by
  have last : [none] = none :: pieces [] := by rw [pieces_nil]
  -- the cases are those of `pieces`, in its order
  by_cases one : a.toNat < 0x80
  · exact .inl ⟨_, s, by rw [ofChar_ofNat_one one]; rfl, pieces_one one s⟩
  have many : ¬ a < 0x80 := fun h => one (lt_0x80_iff.mp h)
  rw [pieces.eq_def]
  dsimp only
  rw [if_neg many]
  cases s with
  | nil => exact .inr ⟨[a], [], List.cons_ne_nil _ _, rfl, last⟩
  | cons b t =>
    dsimp only
    split
    · rename_i two
      obtain ⟨⟨low, high⟩, second⟩ := opensTwo_iff.mp two
      exact .inl ⟨_, t, by rw [ofChar_ofNat_two low high (isTail_iff.mpr second)]; rfl, rfl⟩
    split
    · rename_i three
      cases t with
      | nil => exact .inr ⟨[a, b], [], List.cons_ne_nil _ _, rfl, last⟩
      | cons d u =>
        dsimp only
        split
        · rename_i third
          exact .inl ⟨_, u, by rw [ofChar_ofNat_three three third]; rfl, rfl⟩
        · exact .inr ⟨[a, b], d :: u, List.cons_ne_nil _ _, rfl, rfl⟩
    split
    · rename_i four
      match t with
      | [] => exact .inr ⟨[a, b], [], List.cons_ne_nil _ _, rfl, last⟩
      | [d] =>
        dsimp only
        split
        · exact .inr ⟨[a, b, d], [], List.cons_ne_nil _ _, rfl, last⟩
        · exact .inr ⟨[a, b], [d], List.cons_ne_nil _ _, rfl, rfl⟩
      | d :: e :: v =>
        dsimp only
        split
        · rename_i third
          split
          · rename_i fourth
            exact .inl ⟨_, v, by rw [ofChar_ofNat_four four third fourth]; rfl, rfl⟩
          · exact .inr ⟨[a, b, d], e :: v, List.cons_ne_nil _ _, rfl, rfl⟩
        · exact .inr ⟨[a, b], d :: e :: v, List.cons_ne_nil _ _, rfl, rfl⟩
    · exact .inr ⟨[a], b :: t, List.cons_ne_nil _ _, rfl, rfl⟩

/-! ## All pieces -/

theorem ofChar_ne_nil (c : Char) : ofChar c ≠ [] := by
  rcases ofChar_cases c with ⟨a, form, -⟩ | ⟨a, b, form, -⟩ | ⟨a, b, d, form, -⟩ |
    ⟨a, b, d, e, form, -⟩
  all_goals
    rw [form]
    exact List.cons_ne_nil _ _

/-- Bytes are put together from forms of characters and pieces that are none. -/
theorem pieces_induction {motive : Bytes → Prop} (nil : motive [])
    (char : ∀ c rest, motive rest → motive (ofChar c ++ rest))
    (skip : ∀ skipped rest, pieces (skipped ++ rest) = none :: pieces rest → motive rest →
      motive (skipped ++ rest)) (b : Bytes) : motive b := by
  -- on the number of bytes: a first piece takes at least one of them
  induction size : b.length using Nat.strongRecOn generalizing b with
  | ind n ih =>
    cases b with
    | nil => exact nil
    | cons a s =>
      have shorter {first rest : Bytes} (h : first ≠ []) (whole : a :: s = first ++ rest) :
          rest.length < n := by
        have pos := List.length_pos_iff.mpr h
        have lengths := congrArg List.length whole
        rw [List.length_append, size] at lengths
        omega
      rcases pieces_cons_cases a s with ⟨c, rest, whole, -⟩ | ⟨skipped, rest, some_byte, whole, cut⟩
      · rw [whole]
        exact char c rest (ih _ (shorter (ofChar_ne_nil c) whole) rest rfl)
      · rw [whole] at cut ⊢
        exact skip skipped rest cut (ih _ (shorter some_byte whole) rest rfl)

/-- The pieces of a text's bytes are its characters. -/
theorem pieces_flatMap_ofChar (cs : List Char) : pieces (cs.flatMap ofChar) = cs.map some := by
  induction cs with
  | nil => exact pieces_nil
  | cons c cs ih => rw [List.flatMap_cons, pieces_ofChar_append, ih, List.map_cons]

/-- Bytes with no piece but characters are the bytes of their text. -/
theorem eq_flatMap_ofChar {b : Bytes} {cs : List Char} (h : pieces b = cs.map some) :
    b = cs.flatMap ofChar := by
  induction b using pieces_induction generalizing cs with
  | nil =>
    rw [pieces_nil] at h
    rw [List.map_eq_nil_iff.mp h.symm, List.flatMap_nil]
  | char c rest ih =>
    rw [pieces_ofChar_append] at h
    cases cs with
    | nil => cases h
    | cons c' cs =>
      obtain ⟨same, rest_eq⟩ := List.cons.inj h
      rw [List.flatMap_cons, ← Option.some.inj same, ← ih rest_eq]
  | skip skipped rest cut ih =>
    rw [cut] at h
    cases cs with
    | nil => cases h
    | cons c' cs => cases (List.cons.inj h).1

/-! ## Reading texts -/

/-- Pieces of which each is a character are the characters of some text. -/
theorem exists_map_some {ps : List (Option Char)} (h : none ∉ ps) :
    ∃ cs : List Char, ps = cs.map some := by
  induction ps with
  | nil => exact ⟨[], rfl⟩
  | cons p ps ih =>
    obtain ⟨first, later⟩ := not_or.mp (mt List.mem_cons.mpr h)
    obtain ⟨c, rfl⟩ := Option.ne_none_iff_exists'.mp (Ne.symm first)
    obtain ⟨cs, rfl⟩ := ih later
    exact ⟨c :: cs, rfl⟩

theorem lossy_eq_ofList {b : Bytes} {cs : List Char} (h : pieces b = cs.map some) :
    lossy b = String.ofList cs := by
  rw [lossy, h, List.map_map]
  exact congrArg String.ofList (List.map_id cs)

theorem lossy_encode (s : String) : lossy (encode s) = s :=
  (lossy_eq_ofList (pieces_flatMap_ofChar s.toList)).trans String.ofList_toList

theorem encode_injective {s t : String} (h : encode s = encode t) : s = t := by
  rw [← lossy_encode s, h, lossy_encode]

/-- Forgiving reading yields a text without U+FFFD on its own bytes and on no others. -/
theorem lossy_eq_iff {b : Bytes} {s : String} (h : '\uFFFD' ∉ s.toList) :
    lossy b = s ↔ b = encode s := by
  constructor
  · intro read
    -- a piece that is no character would have put U+FFFD into the text
    have chars : none ∉ pieces b := by
      intro skipped
      rw [← read, lossy, String.toList_ofList] at h
      exact h (List.mem_map.mpr ⟨none, skipped, rfl⟩)
    obtain ⟨cs, whole⟩ := exists_map_some chars
    rw [← read, lossy_eq_ofList whole, encode, String.toList_ofList]
    exact eq_flatMap_ofChar whole
  · rintro rfl
    exact lossy_encode s

theorem lossy_eq_empty_iff {b : Bytes} : lossy b = "" ↔ b = [] :=
  lossy_eq_iff (s := "") List.not_mem_nil

/-- Strict reading yields a text on its own bytes and on no others. -/
theorem decode?_eq_some_iff {b : Bytes} {s : String} : decode? b = some s ↔ b = encode s := by
  constructor
  · intro h
    rw [decode?] at h
    split at h
    · rename_i whole
      have chars : none ∉ pieces b := fun skipped => by
        cases List.all_eq_true.mp whole none skipped
      obtain ⟨cs, read⟩ := exists_map_some chars
      rw [read, List.filterMap_map] at h
      have text : List.filterMap (id ∘ some) cs = cs := List.filterMap_some
      rw [encode, ← Option.some.inj h, String.toList_ofList, text]
      exact eq_flatMap_ofChar read
    · cases h
  · rintro rfl
    rw [decode?, encode, pieces_flatMap_ofChar]
    simp

end Utf8

end GuideRig
