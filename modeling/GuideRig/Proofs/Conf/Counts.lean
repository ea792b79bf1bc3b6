/-
# GuideRig.Proofs.Conf.Counts -- how the counts of a configuration are read

Each entry of `actions` is a name and a literal, and a configuration loads only if every one of the
literals writes a number of 32 bits, exactly (`load_iff_counts`). For a name that comes more than once the
last entry holds, so the order of entries of different names does not matter.
-/

import Mathlib.Algebra.Group.Int.Defs
import Mathlib.Data.List.Perm.Basic
import GuideRig.Proofs.Conf
import GuideRig.Proofs.Json.Lookup

namespace GuideRig

open Json

namespace Conf

/-! ## The record -/

/-- The queries of a configuration. -/
def queriesField : Json.Field := ⟨"queries", .list .text, none⟩

/-- The action counts of a configuration, none if they are left out. -/
def actionsField : Json.Field := ⟨"actions", .map (.whole .u32), some (.map [])⟩

theorem fields_record : record.fields = [queriesField] ++ actionsField :: [] := rfl

theorem fits_u32 : WholeRange.u32.Fits := by
  constructor <;> decide

theorem sound_record : ∀ f ∈ record.fields, f.Sound := by
  refine List.forall_mem_cons.mpr ⟨⟨trivial, nofun⟩, List.forall_mem_singleton.mpr ⟨fits_u32, ?_⟩⟩
  intro d none_given
  obtain rfl := Option.some.inj none_given
  exact fun e member => nomatch member

theorem distinct_record : (record.fields.map Json.Field.name).Nodup := by decide

/-! ## Counts -/

/-- An entry of `actions` is a name and the literal of its count. -/
def IsCount (e : List Piece × Json.Tree) (c : String × UInt32) : Prop :=
  text? e.1 = some c.1 ∧ ∃ literal, e.2 = .number literal ∧ whole? literal = some (c.2.toNat : Int)

/-- A number of 32 bits is one that a count can be. -/
theorem u32_datum?_eq_some_iff {v : Int} {d : Datum} :
    WholeRange.u32.datum? v = some d ↔ ∃ n : UInt32, v = n.toNat ∧ d = .whole n.toNat := by
  have low : WholeRange.u32.low = 0 := rfl
  have high : WholeRange.u32.high = 4294967295 := rfl
  rw [WholeRange.datum?, low, high]
  constructor
  · intro h
    split at h
    next inside =>
      obtain rfl := Option.some.inj h
      have bound : v.toNat < 2 ^ 32 := by omega
      refine ⟨UInt32.ofNat v.toNat, ?_, ?_⟩
      all_goals rw [UInt32.toNat_ofNat_of_lt' bound]
      · omega
      · rw [Int.toNat_of_nonneg inside.1]
    next => cases h
  · rintro ⟨n, rfl, rfl⟩
    have bound := n.toNat_lt
    rw [if_pos (by omega)]

/-- An entry is read as its name and its count. -/
theorem named?_eq_some_iff {e : List Piece × Json.Tree} {name : String} {d : Datum} :
    named? e.1 ((Shape.whole .u32).datum? e.2) = some (name, d) ↔
      ∃ n : UInt32, d = .whole n.toNat ∧ IsCount e (name, n) := by
  constructor
  · intro h
    obtain ⟨text, isText, h⟩ := Option.bind_eq_some_iff.mp h
    obtain ⟨d', isDatum, same⟩ := Option.map_eq_some_iff.mp h
    obtain ⟨rfl, rfl⟩ := Prod.mk.inj same
    match tree : e.2, isDatum with
    | .number literal, isDatum =>
      obtain ⟨v, isWhole, isDatum⟩ := Option.bind_eq_some_iff.mp isDatum
      obtain ⟨n, rfl, rfl⟩ := u32_datum?_eq_some_iff.mp isDatum
      exact ⟨n, rfl, isText, literal, tree, isWhole⟩
  · rintro ⟨n, rfl, isText, literal, tree, isWhole⟩
    have isDatum : (Shape.whole .u32).datum? e.2 = some (.whole n.toNat) := by
      rw [tree]
      exact Option.bind_eq_some_iff.mpr ⟨n.toNat, isWhole, u32_datum?_eq_some_iff.mpr ⟨n, rfl, rfl⟩⟩
    rw [named?, isText, isDatum]
    rfl

/-- Entries are read as counts if each of them is one. -/
theorem datum?_eq_some_iff {entries : List (List Piece × Json.Tree)} {d : Datum} :
    actionsField.shape.datum? (.object entries) = some d ↔
      ∃ counts, List.Forall₂ IsCount entries counts ∧ d = countsDatum counts := by
  have read (es : List (String × Datum)) :
      (entries.mapM fun e => named? e.1 ((Shape.whole .u32).datum? e.2)) = some es ↔
        ∃ counts, List.Forall₂ IsCount entries counts ∧
          es = counts.map fun c => (c.1, .whole c.2.toNat) := by
    rw [mapM_eq_some_iff]
    constructor
    · intro h
      induction h with
      | nil => exact ⟨[], .nil, rfl⟩
      | @cons e p entries es first _ ih =>
        obtain ⟨counts, isCounts, rfl⟩ := ih
        obtain ⟨n, isWhole, isCount⟩ := named?_eq_some_iff.mp first
        exact ⟨(p.1, n) :: counts, .cons isCount isCounts, by rw [List.map_cons, ← isWhole]⟩
    · rintro ⟨counts, isCounts, rfl⟩
      exact List.forall₂_map_right_iff.mpr (isCounts.imp fun e c isCount =>
        named?_eq_some_iff.mpr ⟨c.2, rfl, isCount⟩)
  constructor
  · intro h
    obtain ⟨es, values, rfl⟩ := Option.map_eq_some_iff.mp h
    obtain ⟨counts, isCounts, rfl⟩ := (read es).mp values
    exact ⟨counts, isCounts, rfl⟩
  · rintro ⟨counts, isCounts, rfl⟩
    exact Option.map_eq_some_iff.mpr ⟨_, (read _).mpr ⟨counts, isCounts, rfl⟩, rfl⟩

/-! ## Which counts are held -/

/-- The last of the entries that have a name, and its count. -/
def IsLastCount (entries : List (List Piece × Json.Tree)) (name : String) (count : UInt32) : Prop :=
  ∃ front e back, entries = front ++ e :: back ∧ IsCount e (name, count) ∧
    ∀ e' ∈ back, text? e'.1 ≠ some name

section Held

variable {entries entries' : List (List Piece × Json.Tree)} {counts : List (String × UInt32)}

theorem exists_split_of_forall₂ {α β : Type} {R : α → β → Prop} {l : List α} {front back : List β} {b : β}
    (h : List.Forall₂ R l (front ++ b :: back)) : ∃ front' a back', l = front' ++ a :: back' ∧
      List.Forall₂ R front' front ∧ R a b ∧ List.Forall₂ R back' back := by
  induction front generalizing l with
  | nil =>
    obtain ⟨a, back', first, rest, rfl⟩ := List.forall₂_cons_right_iff.mp h
    exact ⟨[], a, back', rfl, .nil, first, rest⟩
  | cons _ front ih =>
    obtain ⟨a, l, first, rest, rfl⟩ := List.forall₂_cons_right_iff.mp h
    obtain ⟨front', a', back', rfl, before, here, behind⟩ := ih rest
    exact ⟨a :: front', a', back', rfl, .cons first before, here, behind⟩

theorem IsCount.unique {e : List Piece × Json.Tree} {c c' : String × UInt32} (h : IsCount e c)
    (h' : IsCount e c') : c = c' := by
  obtain ⟨name, literal, tree, count⟩ := h
  obtain ⟨name', literal', tree', count'⟩ := h'
  obtain rfl := Tree.number.inj (tree.symm.trans tree')
  have same_count : (c.2.toNat : Int) = c'.2.toNat := Option.some.inj (count.symm.trans count')
  exact Prod.ext (Option.some.inj (name.symm.trans name')) (UInt32.toNat_inj.mp (by omega))

/-- Around an entry the counts are those of the other entries. -/
theorem exists_counts_split {front back : List (List Piece × Json.Tree)} {e : List Piece × Json.Tree}
    (h : List.Forall₂ IsCount (front ++ e :: back) counts) : ∃ front' c back', counts = front' ++ c :: back' ∧
      List.Forall₂ IsCount front front' ∧ IsCount e c ∧ List.Forall₂ IsCount back back' := by
  have flipped : List.Forall₂ (fun c e => IsCount e c) counts (front ++ e :: back) := h.flip
  obtain ⟨front', c, back', rfl, before, here, behind⟩ := exists_split_of_forall₂ flipped
  exact ⟨front', c, back', rfl, before.flip, here, behind.flip⟩

/-- No entry has a name if no count has it. -/
theorem name_ne_of_forall₂ {name : String} (h : List.Forall₂ IsCount entries counts) :
    (∀ c ∈ counts, c.1 ≠ name) ↔ ∀ e ∈ entries, text? e.1 ≠ some name := by
  induction h with
  | nil => simp
  | cons first _ ih => simp only [List.forall_mem_cons, first.1, ih, ne_eq, Option.some.injEq]

/-- Of the entries of a name the map that is read holds the last. -/
theorem mem_iff_isLastCount {name : String} {count : UInt32} (h : List.Forall₂ IsCount entries counts) :
    (name, count) ∈ (ActionCounts.ofList counts).entries ↔ IsLastCount entries name count := by
  rw [ActionCounts.mem_ofList]
  constructor
  · rintro ⟨front, back, rfl, last⟩
    obtain ⟨front', e, back', rfl, -, isCount, behind⟩ := exists_split_of_forall₂ h
    exact ⟨front', e, back', rfl, isCount, (name_ne_of_forall₂ behind).mp last⟩
  · rintro ⟨front, e, back, rfl, isCount, last⟩
    obtain ⟨front', c, back', rfl, -, isCount', behind⟩ := exists_counts_split h
    obtain rfl := isCount.unique isCount'
    exact ⟨front', back', rfl, (name_ne_of_forall₂ behind).mpr last⟩

/-- A literal is a count if it writes a number of 32 bits. -/
theorem exists_isCount_iff {key : List Piece} {name : String} {literal : Bytes}
    (named : text? key = some name) : (∃ n, IsCount (key, .number literal) (name, n)) ↔
      ∃ v, whole? literal = some v ∧ 0 ≤ v ∧ v ≤ 2 ^ 32 - 1 := by
  constructor
  · rintro ⟨n, -, _, ⟨⟩, whole⟩
    have bound := n.toNat_lt
    exact ⟨n.toNat, whole, by omega, by omega⟩
  · rintro ⟨v, whole, low, high⟩
    have bound : v.toNat < 2 ^ 32 := by omega
    refine ⟨UInt32.ofNat v.toNat, named, literal, rfl, ?_⟩
    rw [UInt32.toNat_ofNat_of_lt' bound, Int.toNat_of_nonneg low, whole]

/-- Where all entries are counts, another literal may stand for one of them if it writes a number of 32
bits. -/
theorem exists_counts_iff {front back : List (List Piece × Json.Tree)} {key : List Piece} {t₀ : Json.Tree}
    (h : List.Forall₂ IsCount (front ++ (key, t₀) :: back) counts) {literal : Bytes} :
    (∃ counts', List.Forall₂ IsCount (front ++ (key, .number literal) :: back) counts') ↔
      ∃ v, whole? literal = some v ∧ 0 ≤ v ∧ v ≤ 2 ^ 32 - 1 := by
  obtain ⟨front', c, back', -, before, ⟨named, -⟩, behind⟩ := exists_counts_split h
  rw [← exists_isCount_iff named]
  constructor
  · rintro ⟨counts', isCounts⟩
    obtain ⟨_, c', _, -, -, isCount, -⟩ := exists_counts_split isCounts
    have same : c.1 = c'.1 := Option.some.inj (named.symm.trans isCount.1)
    exact ⟨c'.2, same ▸ isCount⟩
  · rintro ⟨n, isCount⟩
    exact ⟨_, List.rel_append before (.cons isCount behind)⟩

/-- Entries of different names may come in any order. -/
theorem exists_counts_of_perm (h : List.Forall₂ IsCount entries counts) (perm : entries.Perm entries')
    (distinct : (entries.map fun e => text? e.1).Nodup) :
    ∃ counts', List.Forall₂ IsCount entries' counts' ∧
      ActionCounts.ofList counts' = ActionCounts.ofList counts := by
  obtain ⟨counts', isCounts, perm'⟩ := List.perm_comp_forall₂ perm.symm h
  have names : (entries.map fun e => text? e.1) = (counts.map Prod.fst).map some := by
    clear distinct perm isCounts perm'
    induction h with
    | nil => rfl
    | cons first _ ih => rw [List.map_cons, List.map_cons, List.map_cons, first.1, ih]
  have distinct_names : (counts.map Prod.fst).Nodup := List.Nodup.of_map some (names ▸ distinct)
  exact ⟨counts', isCounts, (ActionCounts.ofList_of_perm perm'.symm distinct_names).symm⟩

end Held

/-! ## Loading -/

section Loading

variable {files : Files} {path : String}

/-- A file that does not load as any configuration is reported as a fault of the JSON. -/
theorem load_error_of_ne_ok {doc : Bytes} (h : ∀ c, load (files.written path doc) path ≠ .ok c) :
    ∃ report, load (files.written path doc) path = .error (.json report) := by
  have fails : ∀ ds, record.read doc ≠ .ok ds := fun ds reads =>
    h (ofFields ds) (load_written_eq_ok_iff.mpr ⟨ds, reads, rfl⟩)
  obtain ⟨f, fault⟩ := Record.exists_error_of_ne_ok fails
  exact load_written_of_error files path fault

/-- Where the actions stand in a configuration that loads, any other entries may stand: the configuration
loads with the counts of these if each of them is one. -/
theorem load_iff_counts {tree : Json.Tree → Json.Tree} {t₀ : Json.Tree} {doc₀ : Bytes} {c₀ : Conf}
    (place : FieldPlace actionsField [queriesField] tree) (isDocument₀ : IsDocument (tree t₀) doc₀)
    (loads : load (files.written path doc₀) path = .ok c₀) {entries : List (List Piece × Json.Tree)}
    {doc : Bytes} (isDocument : IsDocument (tree (.object entries)) doc) (c : Conf) :
    load (files.written path doc) path = .ok c ↔
      ∃ counts, List.Forall₂ IsCount entries counts ∧ c = ⟨c₀.queries, .ofList counts⟩ := by
  obtain ⟨ds₀, reads, rfl⟩ := load_written_eq_ok_iff.mp loads
  obtain ⟨ds, ds', front, back, all⟩ :=
    FieldPlace.read fields_record sound_record distinct_record place isDocument₀ reads
  obtain ⟨queries, _, -, none_left, rfl⟩ := List.forall₂_cons_left_iff.mp front
  obtain rfl := List.forall₂_nil_left_iff.mp none_left
  obtain rfl := List.forall₂_nil_left_iff.mp back
  have before := all isDocument₀
  rw [reads] at before
  obtain ⟨d₀, -, rfl⟩ := Option.map_eq_some_iff.mp before.symm
  rw [load_written_eq_ok_iff]
  simp only [← toOption_eq_some_iff, all isDocument]
  constructor
  · rintro ⟨_, read, rfl⟩
    obtain ⟨d, isDatum, rfl⟩ := Option.map_eq_some_iff.mp read
    obtain ⟨counts, isCounts, rfl⟩ := datum?_eq_some_iff.mp isDatum
    exact ⟨counts, isCounts, congrArg (Conf.mk _) (actionsOf_countsDatum counts)⟩
  · rintro ⟨counts, isCounts, rfl⟩
    refine ⟨[queries, countsDatum counts], ?_, congrArg (Conf.mk _) (actionsOf_countsDatum counts)⟩
    exact Option.map_eq_some_iff.mpr ⟨_, datum?_eq_some_iff.mpr ⟨counts, isCounts, rfl⟩, rfl⟩

/-- Where the actions stand in a configuration that loads, entries of different names may stand in any
order: the same configuration is loaded. -/
theorem load_of_perm {tree : Json.Tree → Json.Tree} (place : FieldPlace actionsField [queriesField] tree)
    {entries entries' : List (List Piece × Json.Tree)} {doc doc' : Bytes} {c : Conf}
    (isDocument : IsDocument (tree (.object entries)) doc)
    (loads : load (files.written path doc) path = .ok c) (perm : entries.Perm entries')
    (distinct : (entries.map fun e => text? e.1).Nodup)
    (isDocument' : IsDocument (tree (.object entries')) doc') :
    load (files.written path doc') path = .ok c := by
  obtain ⟨counts, isCounts, made⟩ := (load_iff_counts place isDocument loads isDocument c).mp loads
  obtain ⟨counts', isCounts', same⟩ := exists_counts_of_perm isCounts perm distinct
  apply (load_iff_counts place isDocument loads isDocument' c).mpr
  exact ⟨counts', isCounts', by rw [same, ← made]⟩

end Loading

end Conf

end GuideRig
