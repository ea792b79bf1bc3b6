/-
# GuideRig.Proofs.Json.Tree -- what a JSON text says, whatever its layout

A tree is a value without its layout: the spaces between the tokens are gone, and a string is told by what
it is made of and not by the letters of its escapes. `IsText` gives the texts of a tree, and every value of
the format is a text of one (`exists_isText`). What a string says is a text only if its surrogates come in
pairs and its bytes are UTF-8 (`text?`). The strings of a tree may also be of bytes that are no UTF-8, for a
reader that passes over a string does not look at them.
-/

import Mathlib.Data.List.Forall2
import GuideRig.Json.Machine
import GuideRig.Proofs.Json.Printer

namespace GuideRig.Json

open Ascii

/-! ## Strings -/

/-- What a string is made of: bytes, and code units that are written by their number. -/
inductive Piece where
  | byte (value : UInt8)
  | unit (value : Nat)
  deriving DecidableEq

/-- The bytes between the quotes of a string. -/
inductive IsSpelling : List Piece → Bytes → Prop
  | nil : IsSpelling [] []
  | plain {b : UInt8} {ps : List Piece} {s : Bytes} : b ≠ byte '"' → b ≠ byte '\\' →
      0x20 ≤ b.toNat → IsSpelling ps s → IsSpelling (.byte b :: ps) (b :: s)
  | letter {b a : UInt8} {ps : List Piece} {s : Bytes} : Machine.shortEscape? b = some a →
      IsSpelling ps s → IsSpelling (.byte a :: ps) (byte '\\' :: b :: s)
  | number {ds s : Bytes} {ps : List Piece} : ds.length = 4 → (∀ d ∈ ds, (hexValue? d).isSome) →
      IsSpelling ps s → IsSpelling (.unit (valueFrom 16 0 ds) :: ps) (byte '\\' :: byte 'u' :: ds ++ s)

/-- The bytes of a text that some pieces make up, after the leading surrogate that is given, if there is
one; nothing if a surrogate stands alone. -/
def joinPieces : Option Nat → List Piece → Option Bytes
  | none, [] => some []
  | some _, [] => none
  | none, .byte b :: ps => (joinPieces none ps).map (b :: ·)
  | some _, .byte _ :: _ => none
  | none, .unit n :: ps =>
    if Machine.isTrail n then none
    else if Machine.isLead n then joinPieces (some n) ps
    else (joinPieces none ps).map (Utf8.ofChar (Char.ofNat n) ++ ·)
  | some lead, .unit n :: ps =>
    if Machine.isTrail n then (joinPieces none ps).map (Utf8.ofChar (Machine.pairChar lead n) ++ ·)
    else none

/-- The text that a string says, if it says one. -/
def text? (ps : List Piece) : Option String := (joinPieces none ps).bind Utf8.decode?

/-! ## Trees -/

/-- A value without its layout. -/
inductive Tree where
  | null
  | flag (value : Bool)
  | number (literal : Bytes)
  | string (pieces : List Piece)
  | list (items : List Tree)
  | object (members : List (List Piece × Tree))
  deriving Inhabited

/-- The text of a string. -/
inductive IsQuoted : List Piece → Bytes → Prop
  | mk {ps : List Piece} {s : Bytes} : IsSpelling ps s → IsQuoted ps (byte '"' :: s ++ [byte '"'])

/-- A key and a value of an object, each with its text. -/
structure Entry where
  key : List Piece
  value : Tree
  keyText : Bytes
  valueText : Bytes

/-- The texts of a tree. -/
inductive IsText : Tree → Bytes → Prop
  | null : IsText .null (bytes "null")
  | flag {b : Bool} : IsText (.flag b) (bytes (if b then "true" else "false"))
  | number {s : Bytes} : IsNumber s → IsText (.number s) s
  | string {ps : List Piece} {s : Bytes} : IsQuoted ps s → IsText (.string ps) s
  | list {items : List (Tree × Bytes)} {s : Bytes} :
      IsEnclosed (byte '[') (byte ']') (items.map Prod.snd) s → (∀ i ∈ items, IsText i.1 i.2) →
      IsText (.list (items.map Prod.fst)) s
  | object {entries : List Entry} {parts : List Bytes} {s : Bytes} :
      IsEnclosed (byte '\x7b') (byte '\x7d') parts s →
      List.Forall₂ (fun e part => IsMember (e.keyText, e.valueText) part) entries parts →
      (∀ e ∈ entries, IsQuoted e.key e.keyText) → (∀ e ∈ entries, IsText e.value e.valueText) →
      IsText (.object (entries.map fun e => (e.key, e.value))) s

/-- A document: the text of a tree, with spaces around it. -/
inductive IsDocument (t : Tree) : Bytes → Prop
  | mk {before text after : Bytes} : IsGap before → IsText t text → IsGap after →
      IsDocument t (before ++ text ++ after)

/-! ## Every value is the text of a tree -/

/-- A byte of a string that stands for itself. -/
def IsPlain (b : UInt8) : Prop := b ≠ byte '"' ∧ b ≠ byte '\\' ∧ 0x20 ≤ b.toNat

theorem isPlain_of_mem_ofChar {c : Char} (quote : c ≠ '"') (slash : c ≠ '\\') (visible : 0x20 ≤ c.toNat)
    {b : UInt8} (member : b ∈ Utf8.ofChar c) : IsPlain b := by
  refine ⟨?_, ?_, ?_⟩
  · rintro rfl
    exact quote (eq_of_byte_mem_ofChar (by decide) member)
  · rintro rfl
    exact slash (eq_of_byte_mem_ofChar (by decide) member)
  · by_contra low
    have value := Utf8.toNat_of_mem_ofChar member (by omega)
    omega

theorem IsSpelling.append {ps : List Piece} {s t : Bytes}
    (plain : ∀ b ∈ s, IsPlain b) (h : IsSpelling ps t) :
    IsSpelling (s.map .byte ++ ps) (s ++ t) := by
  induction s with
  | nil => exact h
  | cons b s ih =>
    obtain ⟨⟨quote, slash, visible⟩, later⟩ := List.forall_mem_cons.mp plain
    exact .plain quote slash visible (ih later)

theorem exists_shortEscape {b : UInt8} (h : b ∈ bytes "\"\\/bfnrt") :
    ∃ a, Machine.shortEscape? b = some a := by
  have all : ∀ b ∈ bytes "\"\\/bfnrt", (Machine.shortEscape? b).isSome :=
    List.all_eq_true.mp (by decide)
  exact Option.isSome_iff_exists.mp (all b h)

theorem IsContent.exists_isSpelling {s : Bytes} (h : IsContent s) : ∃ ps, IsSpelling ps s := by
  induction h with
  | nil => exact ⟨[], .nil⟩
  | @plain c s quote slash visible content ih =>
    obtain ⟨ps, spelling⟩ := ih
    exact ⟨_, spelling.append fun b member => isPlain_of_mem_ofChar quote slash visible member⟩
  | letter isLetter content ih =>
    obtain ⟨ps, spelling⟩ := ih
    obtain ⟨a, stands⟩ := exists_shortEscape isLetter
    exact ⟨_, .letter stands spelling⟩
  | number four digits content ih =>
    obtain ⟨ps, spelling⟩ := ih
    exact ⟨_, .number four digits spelling⟩

theorem IsString.exists_isQuoted {s : Bytes} (h : IsString s) : ∃ ps, IsQuoted ps s := by
  obtain ⟨content⟩ := h
  obtain ⟨ps, spelling⟩ := content.exists_isSpelling
  exact ⟨ps, .mk spelling⟩

/-- Every value of the format is the text of a tree. -/
theorem IsValue.exists_isText {s : Bytes} (h : IsValue s) : ∃ t, IsText t s := by
  induction h with
  | null => exact ⟨_, .null⟩
  | flag => exact ⟨_, .flag⟩
  | number number => exact ⟨_, .number number⟩
  | string string =>
    obtain ⟨ps, quoted⟩ := string.exists_isQuoted
    exact ⟨_, .string quoted⟩
  | @list items s enclosed _ ih =>
    choose! tree text using ih
    have texts : (items.map fun item => (tree item, item)).map Prod.snd = items := by
      rw [List.map_map]
      exact List.map_id items
    rw [← texts] at enclosed
    exact ⟨_, .list enclosed (List.forall_mem_map.mpr text)⟩
  | @object members parts s enclosed isMembers keys _ ih =>
    choose! tree text using ih
    have quoted : ∀ m ∈ members, ∃ ps, IsQuoted ps m.1 := fun m member =>
      (keys m member).exists_isQuoted
    choose! pieces quoted using quoted
    let entry (m : Bytes × Bytes) : Entry := ⟨pieces m, tree m, m.1, m.2⟩
    exact ⟨_, @IsText.object (members.map entry) parts s enclosed
      (List.forall₂_map_left_iff.mpr isMembers) (List.forall_mem_map.mpr quoted)
      (List.forall_mem_map.mpr text)⟩

/-! ## Texts without spaces -/

/-- A text as the pieces of a string, each byte for itself. -/
def plainly (s : String) : List Piece := (Utf8.encode s).map .byte

theorem text?_plainly (s : String) : text? (plainly s) = some s := by
  have joined (t : Bytes) : joinPieces none (t.map .byte) = some t := by
    induction t with
    | nil => rfl
    | cons b t ih => rw [List.map_cons, joinPieces, ih, Option.map_some]
  rw [text?, plainly, joined, Option.bind_some, Utf8.decode?_eq_some_iff]

/-- Characters that stand for themselves are quoted as they are. -/
theorem isQuoted_quote {s : String} (plain : ∀ c ∈ s.toList, c ≠ '"' ∧ c ≠ '\\' ∧ 0x20 ≤ c.toNat) :
    IsQuoted (plainly s) (quote s) := by
  have spelling (cs : List Char) (plain : ∀ c ∈ cs, c ≠ '"' ∧ c ≠ '\\' ∧ 0x20 ≤ c.toNat) :
      IsSpelling ((cs.flatMap Utf8.ofChar).map .byte) (cs.flatMap escapeChar) := by
    induction cs with
    | nil => exact .nil
    | cons c cs ih =>
      obtain ⟨⟨quote, slash, visible⟩, later⟩ := List.forall_mem_cons.mp plain
      have other {d : Char} (control : d.toNat < 0x20) : c ≠ d := by
        rintro rfl
        omega
      have written : escapeChar c = Utf8.ofChar c := by
        rw [escapeChar, if_neg quote, if_neg slash, if_neg (other (by decide)), if_neg (other (by decide)),
          if_neg (other (by decide)), if_neg (other (by decide)), if_neg (other (by decide)),
          if_neg (Nat.not_lt.mpr visible)]
      rw [List.flatMap_cons, List.flatMap_cons, List.map_append, written]
      exact (ih later).append fun b member => isPlain_of_mem_ofChar quote slash visible member
  exact .mk (spelling s.toList plain)

/-- Items with commas between them. -/
theorem isText_list {items : List (Tree × Bytes)} {s : Bytes} (texts : ∀ i ∈ items, IsText i.1 i.2)
    (spelled : s = byte '[' :: joined (items.map Prod.snd) ++ [byte ']']) :
    IsText (.list (items.map Prod.fst)) s := by
  rw [spelled]
  exact .list (isEnclosed_joined _ _ _) texts

/-- Members of plain names with commas between them. -/
theorem isText_object {members : List (String × Tree × Bytes)} {s : Bytes}
    (plain : ∀ m ∈ members, ∀ c ∈ m.1.toList, c ≠ '"' ∧ c ≠ '\\' ∧ 0x20 ≤ c.toNat)
    (texts : ∀ m ∈ members, IsText m.2.1 m.2.2)
    (spelled : s = byte '\x7b' :: joined (members.map fun m => member m.1 m.2.2) ++ [byte '\x7d']) :
    IsText (.object (members.map fun m => (plainly m.1, m.2.1))) s := by
  have object := @IsText.object (members.map fun m => ⟨plainly m.1, m.2.1, quote m.1, m.2.2⟩) _ _
    (isEnclosed_joined _ _ (members.map fun m => member m.1 m.2.2))
  rw [List.map_map] at object
  rw [spelled]
  refine object ?_ ?_ ?_
  · rw [List.forall₂_map_left_iff, List.forall₂_map_right_iff, List.forall₂_same]
    exact fun m _ => isMember_member m.1 m.2.2
  · exact List.forall_mem_map.mpr fun m member => isQuoted_quote (plain m member)
  · exact List.forall_mem_map.mpr texts

/-- A document without spaces around it. -/
theorem IsText.isDocument {t : Tree} {s : Bytes} (h : IsText t s) : IsDocument t s := by
  have document := IsDocument.mk (List.forall_mem_nil _) h (List.forall_mem_nil _)
  rwa [List.nil_append, List.append_nil] at document

end GuideRig.Json
