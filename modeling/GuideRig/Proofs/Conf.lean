/-
# GuideRig.Proofs.Conf -- a configuration is loaded from what it was written as

A configuration comes back from its JSON, whatever its queries and its names of actions are made of: the
reader takes the two written fields for their data (`read_write`), and a map of counts is rebuilt from its
own entries. A file that holds the JSON of a configuration therefore loads as that configuration
(`load_write`).
-/

import GuideRig.Error
import GuideRig.Proofs.Json.Record
import GuideRig.Proofs.Telemetry.ActionCounts

namespace GuideRig

open Json

/-- The files once one of them has been written. -/
def Files.written (files : Files) (path : String) (content : Bytes) : Files :=
  fun p => if p = path then .ok content else files p

theorem Files.bytes_written (files : Files) (path : String) (content : Bytes) :
    (files.written path content).bytes path = .ok content := by
  simp only [Files.bytes, Content.readFile, Files.written, if_true]

namespace Conf

/-! ## The two fields -/

/-- The data of the fields of a configuration. -/
def fieldData (c : Conf) : List Datum :=
  [.list (c.queries.map .text), .map (c.actions.entries.map fun (name, n) => (name, .whole n.toNat))]

theorem toDatum_eq (c : Conf) : c.toDatum = .map (fieldEntries record.fields c.fieldData) := rfl

theorem queriesOf_list (queries : List String) : queriesOf (.list (queries.map .text)) = queries := by
  rw [queriesOf, List.map_map]
  exact List.map_id queries

theorem countOf_whole (n : UInt32) : countOf (.whole n.toNat) = n := by
  rw [countOf, Int.toNat_natCast, UInt32.ofNat_toNat]

/-- The datum of some counts. -/
def countsDatum (counts : List (String × UInt32)) : Datum :=
  .map (counts.map fun c => (c.1, .whole c.2.toNat))

theorem actionsOf_countsDatum (counts : List (String × UInt32)) :
    actionsOf (countsDatum counts) = ActionCounts.ofList counts := by
  have same : (fun c : String × UInt32 => (c.1, countOf (.whole c.2.toNat))) = id := by
    funext c
    rw [countOf_whole]
    rfl
  rw [countsDatum, actionsOf, List.map_map]
  show ActionCounts.ofList (counts.map fun c => (c.1, countOf (.whole c.2.toNat))) = _
  rw [same, List.map_id]

theorem ofFields_fieldData (c : Conf) : ofFields c.fieldData = c := by
  have actions := (actionsOf_countsDatum c.actions.entries).trans (ActionCounts.ofList_entries c.actions)
  rw [fieldData, ofFields, queriesOf_list]
  exact congrArg (fun m => (⟨c.queries, m⟩ : Conf)) actions

/-- A count is in the range that it is read for. -/
theorem holds_count (n : UInt32) : Shape.Holds (.whole .u32) (.whole n.toNat) := by
  have bound := n.toNat_lt
  have low : WholeRange.u32.low = 0 := rfl
  have high : WholeRange.u32.high = 4294967295 := rfl
  have signed : twoTo 63 = 9223372036854775808 := rfl
  have unsigned : twoTo 64 = 18446744073709551616 := rfl
  rw [Shape.Holds, low, high]
  omega

/-! ## Reading and loading -/

/-- A configuration is read back from its JSON. -/
theorem read_write (c : Conf) : read c.write = .ok c := by
  have holds : List.Forall₂ (fun f d => f.shape.Holds d) record.fields c.fieldData := by
    refine .cons ?_ (.cons ?_ .nil)
    · exact List.forall_mem_map.mpr fun s _ => trivial
    · exact List.forall_mem_map.mpr fun e _ => holds_count e.2
  have fields : record.read c.write = .ok c.fieldData := by
    rw [write, toDatum_eq]
    exact Record.read_write (by decide) holds
  simp only [read, fields, ofFields_fieldData]

/-- A file loads as the configuration of the fields that its content is read as. -/
theorem load_written_eq_ok_iff {files : Files} {path : String} {doc : Bytes} {c : Conf} :
    load (files.written path doc) path = .ok c ↔ ∃ ds, record.read doc = .ok ds ∧ ofFields ds = c := by
  simp only [load, Files.bytes_written, read]
  cases record.read doc with
  | ok ds =>
    constructor
    · rintro ⟨⟩
      exact ⟨ds, rfl, rfl⟩
    · rintro ⟨_, ⟨⟩, rfl⟩
      rfl
  | error f =>
    constructor
    · rintro ⟨⟩
    · rintro ⟨_, ⟨⟩, _⟩

/-- A file whose content is not read is reported as a fault of the JSON. -/
theorem load_written_of_error (files : Files) (path : String) {doc : Bytes} {f : Fault}
    (h : record.read doc = .error f) :
    ∃ report, load (files.written path doc) path = .error (.json report) := by
  simp only [load, Files.bytes_written, read, h]
  exact ⟨f.report doc, rfl⟩

/-- A file that a configuration has been written to loads as that configuration. Whatever file loads, the
configuration that it loads as is loaded again from its own JSON, and writes the same. -/
theorem load_write (files : Files) (path : String) :
    (∀ c : Conf, load (files.written path c.write) path = .ok c) ∧
    ∀ c : Conf, load files path = .ok c →
      ∃ again, load (files.written path c.write) path = .ok again ∧ again = c ∧
        again.write = c.write := by
  have loads (c : Conf) : load (files.written path c.write) path = .ok c := by
    simp only [load, Files.bytes_written, read_write]
  refine ⟨loads, ?_⟩
  intro c _
  exact ⟨c, loads c, rfl, rfl⟩

end Conf

end GuideRig
