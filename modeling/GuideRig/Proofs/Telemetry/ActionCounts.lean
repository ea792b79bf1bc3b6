/-
# GuideRig.Proofs.Telemetry.ActionCounts -- what a map of counts holds

Counts are put in their places one by one, and a name that stands after all others is put at the end. The
entries of a map come in just that order, so that putting them into an empty map gives the map back. Of
any list of counts the map holds for each name the last one (`mem_ofList`), and so the order of a list in
which no name comes twice does not matter to it (`ofList_of_perm`).
-/

import Mathlib.Data.List.Induction
import Mathlib.Data.List.Sort
import GuideRig.Proofs.Text.Utf8
import GuideRig.Telemetry.ActionCounts

namespace GuideRig.ActionCounts

theorem not_nameBefore {a b : String} (h : nameBefore a b) : ¬ nameBefore b a :=
  List.lt_asymm h

/-- A name that stands after all others is put at the end. -/
theorem put_last {name : String} {count : UInt32} {es : List (String × UInt32)}
    (h : ∀ e ∈ es, nameBefore e.1 name) : put name count es = es ++ [(name, count)] := by
  induction es with
  | nil => rfl
  | cons e es ih =>
    obtain ⟨first, later⟩ := List.forall_mem_cons.mp h
    rw [put, if_neg (not_nameBefore first), if_pos first, ih later, List.cons_append]

/-- Entries that all stand after those of a map, and in order, are added at its end. -/
theorem entries_foldl_insert {m : ActionCounts} {es : List (String × UInt32)}
    (h : (m.entries ++ es).Pairwise fun a b => nameBefore a.1 b.1) :
    (es.foldl (fun m e => m.insert e.1 e.2) m).entries = m.entries ++ es := by
  induction es generalizing m with
  | nil => exact (List.append_nil m.entries).symm
  | cons e es ih =>
    have after : ∀ e' ∈ m.entries, nameBefore e'.1 e.1 := by
      intro e' member
      exact (List.pairwise_append.mp h).2.2 e' member e List.mem_cons_self
    have placed : (m.insert e.1 e.2).entries = m.entries ++ [e] := put_last after
    rw [List.foldl_cons, ih, placed, List.append_assoc, List.singleton_append]
    rw [placed, List.append_assoc, List.singleton_append]
    exact h

/-- A map is told by its entries. -/
theorem eq_of_entries {m m' : ActionCounts} (h : m.entries = m'.entries) : m = m' := by
  obtain ⟨entries, ordered⟩ := m
  subst h
  rfl

/-- A map is rebuilt from its entries. -/
theorem ofList_entries (m : ActionCounts) : ofList m.entries = m := by
  apply eq_of_entries
  exact entries_foldl_insert m.ordered

/-! ## Which counts a map holds -/

instance : Std.Irrefl fun a b : String × UInt32 => nameBefore a.1 b.1 :=
  ⟨fun a => List.lt_irrefl (Utf8.encode a.1)⟩

instance : Std.Antisymm fun a b : String × UInt32 => nameBefore a.1 b.1 :=
  ⟨fun _ _ before after => absurd after (not_nameBefore before)⟩

theorem ne_of_nameBefore {a b : String} (h : nameBefore a b) : a ≠ b := by
  rintro rfl
  exact List.lt_irrefl (Utf8.encode a) h

theorem eq_of_not_nameBefore {a b : String} (h : ¬ nameBefore a b) (h' : ¬ nameBefore b a) : a = b :=
  Utf8.encode_injective (List.le_antisymm (List.not_lt.mp h') (List.not_lt.mp h))

/-- A count is put in place of an earlier one of its name, and all others stay. -/
theorem mem_put {name a : String} {count n : UInt32} {es : List (String × UInt32)}
    (ordered : es.Pairwise fun a b => nameBefore a.1 b.1) :
    (a, n) ∈ put name count es ↔ (a = name ∧ n = count) ∨ (a ≠ name ∧ (a, n) ∈ es) := by
  induction es with
  | nil => simp [put]
  | cons e es ih =>
    obtain ⟨first, later⟩ := List.pairwise_cons.mp ordered
    rw [put]
    by_cases before : nameBefore name e.1
    · -- the name is new: it stands before all of the entries
      have others : (a, n) ∈ e :: es → a ≠ name := by
        intro member
        rcases List.mem_cons.mp member with same | member
        · exact (congrArg Prod.fst same).trans_ne (ne_of_nameBefore before).symm
        · exact (ne_of_nameBefore (List.lt_trans before (first _ member))).symm
      rw [if_pos before, List.mem_cons, Prod.mk.injEq]
      exact or_congr_right ⟨fun member => ⟨others member, member⟩, And.right⟩
    · rw [if_neg before]
      by_cases after : nameBefore e.1 name
      · have other : (a, n) = e → a ≠ name := fun same =>
          (congrArg Prod.fst same).trans_ne (ne_of_nameBefore after)
        rw [if_pos after, List.mem_cons, List.mem_cons, ih later]
        grind
      · have same : e.1 = name := eq_of_not_nameBefore after before
        have others : (a, n) ∈ es → a ≠ name := fun member =>
          (same ▸ ne_of_nameBefore (first _ member)).symm
        rw [if_neg after, List.mem_cons, List.mem_cons, Prod.mk.injEq]
        grind

/-- Of the counts of a name a map holds the last. -/
theorem mem_ofList {name : String} {count : UInt32} {es : List (String × UInt32)} :
    (name, count) ∈ (ofList es).entries ↔
      ∃ front back, es = front ++ (name, count) :: back ∧ ∀ e ∈ back, e.1 ≠ name := by
  induction es using List.reverseRecOn with
  | nil => simp [ofList, empty]
  | append_singleton es e ih =>
    have put_last : (ofList (es ++ [e])).entries = put e.1 e.2 (ofList es).entries := by
      rw [ofList, List.foldl_append]
      rfl
    rw [put_last, mem_put (ofList es).ordered, ih]
    constructor
    · rintro (⟨rfl, rfl⟩ | ⟨other, front, back, rfl, last⟩)
      · exact ⟨es, [], rfl, by simp⟩
      · refine ⟨front, back ++ [e], by simp, ?_⟩
        intro e' member
        rcases List.mem_append.mp member with member | member
        · exact last e' member
        · rw [List.mem_singleton.mp member]
          exact other.symm
    · rintro ⟨front, back, form, last⟩
      -- the last of all is either the one in question or one of those behind it
      rcases back.eq_nil_or_concat with rfl | ⟨back, e', rfl⟩
      · obtain ⟨rfl, rfl⟩ := List.append_inj' form rfl |>.imp id fun same => List.singleton_inj.mp same
        exact .inl ⟨rfl, rfl⟩
      · rw [List.concat_eq_append] at form last
        have whole : es ++ [e] = (front ++ (name, count) :: back) ++ [e'] := by
          rw [form]
          simp
        obtain ⟨rfl, same⟩ := List.append_inj' whole rfl
        obtain rfl := List.singleton_inj.mp same
        refine .inr ⟨(last e (by simp)).symm, front, back, rfl, ?_⟩
        exact fun e' member => last e' (List.mem_append_left _ member)

/-- Where no name comes twice a map holds every count. -/
theorem mem_ofList_of_nodup {name : String} {count : UInt32} {es : List (String × UInt32)}
    (distinct : (es.map Prod.fst).Nodup) : (name, count) ∈ (ofList es).entries ↔ (name, count) ∈ es := by
  rw [mem_ofList]
  constructor
  · rintro ⟨front, back, rfl, -⟩
    simp
  · intro member
    obtain ⟨front, back, rfl⟩ := List.append_of_mem member
    refine ⟨front, back, rfl, ?_⟩
    rw [List.map_append, List.map_cons] at distinct
    have apart := (List.nodup_cons.mp (List.nodup_append.mp distinct).2.1).1
    intro e later same
    exact apart (List.mem_map.mpr ⟨e, later, same⟩)

/-- A map does not depend on the order of counts of different names. -/
theorem ofList_of_perm {es es' : List (String × UInt32)} (h : es.Perm es')
    (distinct : (es.map Prod.fst).Nodup) : ofList es = ofList es' := by
  have distinct' : (es'.map Prod.fst).Nodup := (h.map Prod.fst).nodup_iff.mp distinct
  apply eq_of_entries
  apply List.Pairwise.eq_of_mem_iff (ofList es).ordered (ofList es').ordered
  intro e
  rw [mem_ofList_of_nodup distinct, mem_ofList_of_nodup distinct', h.mem_iff]

end GuideRig.ActionCounts
