/-
# GuideRig.Telemetry.ActionCounts -- how often each action is to happen

A finite map from action names to counts. Its entries stand in the byte order of the names, each
name once; the type carries that order, so that two maps with the same counts are equal and a
batch of events never depends on the order in which a configuration was written.
-/

import GuideRig.Text.Utf8

namespace GuideRig

/-- The byte order of names. -/
def nameBefore (a b : String) : Prop := Utf8.encode a < Utf8.encode b

instance (a b : String) : Decidable (nameBefore a b) :=
  inferInstanceAs (Decidable (Utf8.encode a < Utf8.encode b))

namespace ActionCounts

/-- Puts a count in its place among entries in order, replacing an earlier count of the name. -/
def put (name : String) (count : UInt32) : List (String × UInt32) → List (String × UInt32)
  | [] => [(name, count)]
  | (n, c) :: r =>
    if nameBefore name n then (name, count) :: (n, c) :: r
    else if nameBefore n name then (n, c) :: put name count r
    else (name, count) :: r

/-- Every name of the entries stands after the given one. -/
theorem put_after {a name : String} {count : UInt32} (h : nameBefore a name) :
    ∀ {es : List (String × UInt32)}, (∀ e ∈ es, nameBefore a e.1) →
      ∀ e ∈ put name count es, nameBefore a e.1
  | [], _, e, he => by
    simp only [put, List.mem_singleton] at he
    exact he ▸ h
  | (n, c) :: r, hes, e, he => by
    unfold put at he
    split at he
    · simp only [List.mem_cons] at he
      rcases he with rfl | rfl | he
      · exact h
      · exact hes _ (by simp)
      · exact hes _ (by simp [he])
    · split at he
      · simp only [List.mem_cons] at he
        rcases he with rfl | he
        · exact hes (n, c) (by simp)
        · exact put_after h (fun e he => hes e (by simp [he])) e he
      · simp only [List.mem_cons] at he
        rcases he with rfl | he
        · exact h
        · exact hes _ (by simp [he])

/-- Putting a count keeps the entries in order. -/
theorem pairwise_put (name : String) (count : UInt32) :
    ∀ {es : List (String × UInt32)}, es.Pairwise (fun a b => nameBefore a.1 b.1) →
      (put name count es).Pairwise fun a b => nameBefore a.1 b.1
  | [], _ => by simp [put]
  | (n, c) :: r, h => by
    have hr := (List.pairwise_cons.1 h).2
    have hn := (List.pairwise_cons.1 h).1
    unfold put
    split
    · rename_i hlt
      refine List.pairwise_cons.2 ⟨fun e he => ?_, h⟩
      simp only [List.mem_cons] at he
      rcases he with rfl | he
      · exact hlt
      · exact List.lt_trans hlt (hn e he)
    · split
      · rename_i hgt
        exact List.pairwise_cons.2 ⟨put_after hgt hn, pairwise_put name count hr⟩
      · rename_i hnot hnot'
        refine List.pairwise_cons.2 ⟨fun e he => ?_, hr⟩
        have same : Utf8.encode n = Utf8.encode name :=
          List.le_antisymm (List.not_lt.1 hnot) (List.not_lt.1 hnot')
        simpa [nameBefore, same] using hn e he

end ActionCounts

/-- Counts by action name, in the byte order of the names. -/
structure ActionCounts where
  entries : List (String × UInt32)
  ordered : entries.Pairwise fun a b => nameBefore a.1 b.1
  deriving DecidableEq

namespace ActionCounts

/-- No action. -/
def empty : ActionCounts := ⟨[], List.Pairwise.nil⟩

/-- The map with one count set; an earlier count of the same name gives way. -/
def insert (m : ActionCounts) (name : String) (count : UInt32) : ActionCounts :=
  ⟨put name count m.entries, pairwise_put name count m.ordered⟩

/-- The map of a list of counts; of several for one name the last holds. -/
def ofList (es : List (String × UInt32)) : ActionCounts :=
  es.foldl (fun m e => m.insert e.1 e.2) empty

/-- How many events one batch has. -/
def total (m : ActionCounts) : Nat := (m.entries.map fun e => e.2.toNat).foldr (· + ·) 0

end ActionCounts

end GuideRig
