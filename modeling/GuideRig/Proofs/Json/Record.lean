/-
# GuideRig.Proofs.Json.Record -- a record is read back from its written form

The fields of a record are read one after the other. `slots` tells what the reader holds on the way: the
data of the fields that have been read, and nothing for those that are left. Once none is left the record
is complete (`Record.read_write`).
-/

import Mathlib.Data.List.Forall2
import GuideRig.Proofs.Json.Machine

namespace GuideRig.Json

open Ascii

/-- The fields of a record and their data, as entries. -/
def fieldEntries (fields : List Field) (ds : List Datum) : List (String × Datum) :=
  List.zipWith (fun f d => (f.name, d)) fields ds

theorem fieldEntries_nil : fieldEntries [] [] = [] := rfl

theorem fieldEntries_cons (f : Field) (fs : List Field) (d : Datum) (ds : List Datum) :
    fieldEntries (f :: fs) (d :: ds) = (f.name, d) :: fieldEntries fs ds := rfl

/-! ## The fields -/

/-- Among fields of different names no other has the name of a field. -/
theorem name_ne {before after : List Field} {f g : Field}
    (distinct : ((before ++ f :: after).map Field.name).Nodup) (other : g ∈ before ++ after) :
    g.name ≠ f.name := by
  rw [List.map_append, List.map_cons] at distinct
  obtain ⟨-, fromHere, apart⟩ := List.nodup_append.mp distinct
  rcases List.mem_append.mp other with early | late
  · exact apart _ (List.mem_map_of_mem early) _ List.mem_cons_self
  · rintro same
    exact (List.nodup_cons.mp fromHere).1 (same ▸ List.mem_map_of_mem late)

namespace Machine

variable {r : Record} {stack : List Frame}

/-- What the fields of a record have been given when the first of them have been read: these have their
data, and those that are left have nothing. -/
def slots (given : List Datum) (left : List Field) : List (Option Datum) :=
  given.map some ++ left.map fun _ => none

section Records

variable {before after : List Field} {f : Field} {given : List Datum}

/-- The key of the first field that is left is taken for that field. -/
theorem takeKey_slots (fields : r.fields = before ++ f :: after)
    (distinct : (r.fields.map Field.name).Nodup) (size : given.length = before.length)
    (last : Option Nat) :
    takeKey r (.record (slots given (f :: after)) last :: stack) f.name =
      ⟨.record (slots given (f :: after)) (some given.length) :: stack, .colon (.shape f.shape)⟩ := by
  have other : ∀ g ∈ before, (g.name == f.name) = false := by
    intro g member
    rw [fields] at distinct
    exact beq_eq_false_iff_ne.mpr (name_ne distinct (List.mem_append_left after member))
  have place : (r.fields.findIdx? fun g => g.name == f.name) = some given.length := by
    rw [fields, List.findIdx?_append, List.findIdx?_eq_none_iff.mpr other, size]
    simp [List.findIdx?_cons]
  have free : (slots given (f :: after))[given.length]? = some none := by
    simp [slots]
  have found : r.fields[given.length]? = some f := by
    rw [fields, size]
    simp
  simp only [takeKey, place, free, found, Option.join_some]

/-- A field that is handed its datum is no longer left. -/
theorem deliver_slots (d : Datum) :
    deliver d (.record (slots given (f :: after)) (some given.length) :: stack) =
      ⟨.record (slots (given ++ [d]) after) (some given.length) :: stack, .separator⟩ := by
  simp [deliver, slots]

/-- A record is complete when all of its fields have been given something. -/
theorem complete_given {fields : List Field} {ds : List Datum} (size : ds.length = fields.length) :
    complete fields (ds.map some) = .ok ds := by
  induction fields generalizing ds with
  | nil =>
    rw [List.length_nil, List.length_eq_zero_iff] at size
    rw [size]
    rfl
  | cons f fields ih =>
    cases ds with
    | nil => cases size
    | cons d ds =>
      have later := ih (Nat.succ.inj size)
      simp only [List.map_cons, complete, List.head?_cons, List.tail_cons, later, Option.join_some,
        Option.some_or]
      rfl

/-- The fields of a record are taken one after the other, up to its end. -/
theorem run_fields {d : Datum} {ds : List Datum} {last : Option Nat} {phase : Phase}
    (fields : r.fields = before ++ f :: after) (distinct : (r.fields.map Field.name).Nodup)
    (size : given.length = before.length)
    (holds : List.Forall₂ (fun f d => f.shape.Holds d) (f :: after) (d :: ds))
    (awaits : AwaitsKey r (.record (slots given (f :: after)) last :: stack) phase) (rest : Bytes) :
    run r ⟨.record (slots given (f :: after)) last :: stack, phase⟩
        (joined (writeEntries (fieldEntries (f :: after) (d :: ds))) ++ byte '\x7d' :: rest) =
      run r ⟨stack, .ended (given ++ d :: ds)⟩ rest := by
  -- on the fields that are left: each one that is read moves over to those before it
  induction after generalizing before f given d ds last phase with
  | nil =>
    obtain ⟨first, later⟩ := List.forall₂_cons.mp holds
    obtain rfl := List.forall₂_nil_left_iff.mp later
    have whole : complete r.fields (slots (given ++ [d]) []) = .ok (given ++ [d]) := by
      rw [slots, List.map_nil, List.append_nil]
      apply complete_given
      simp [fields, size]
    have ends : step r (deliver d (.record (slots given [f]) (some given.length) :: stack))
        (byte '\x7d') = .ok ⟨stack, .ended (given ++ [d])⟩ := by
      rw [deliver_slots]
      show close r (.record (slots (given ++ [d]) []) (some given.length) :: stack) = _
      simp only [close, whole]
    rw [fieldEntries_cons, fieldEntries_nil, joined_writeEntries_one,
      run_member awaits (takeKey_slots fields distinct size last) (takes_of_holds first) (.inr (.inr rfl)),
      run_cons ends]
  | cons g after ih =>
    obtain ⟨first, later⟩ := List.forall₂_cons.mp holds
    obtain ⟨e, ds, next, -, rfl⟩ := List.forall₂_cons_left_iff.mp later
    have goes : step r (deliver d (.record (slots given (f :: g :: after)) (some given.length) :: stack))
        (byte ',') = .ok ⟨.record (slots (given ++ [d]) (g :: after)) (some given.length) :: stack,
          .key⟩ := by
      rw [deliver_slots]
      rfl
    have moved : r.fields = (before ++ [f]) ++ g :: after := by
      rw [fields, List.append_assoc, List.singleton_append]
    have counted : (given ++ [d]).length = (before ++ [f]).length := by
      rw [List.length_append, List.length_append, size, List.length_singleton, List.length_singleton]
    rw [fieldEntries_cons, fieldEntries_cons, joined_writeEntries, List.append_assoc, List.cons_append,
      run_member awaits (takeKey_slots fields distinct size last) (takes_of_holds first) (.inl rfl),
      run_cons goes, ← fieldEntries_cons, ih moved counted later ⟨rfl, rfl⟩, List.append_assoc, List.singleton_append]

end Records

end Machine

/-- A record whose fields have different names is read back from its written form. -/
theorem Record.read_write {r : Record} {ds : List Datum} (distinct : (r.fields.map Field.name).Nodup)
    (holds : List.Forall₂ (fun f d => f.shape.Holds d) r.fields ds) :
    r.read (Datum.map (fieldEntries r.fields ds)).write = .ok ds := by
  have opens : Machine.start.step r (byte '\x7b') =
      .ok ⟨[.record (Machine.slots [] r.fields) none], .opened⟩ := rfl
  have whole : Machine.start.run r (Datum.map (fieldEntries r.fields ds)).write =
      .ok ⟨[], .ended ds⟩ := by
    rw [Datum.write, List.cons_append, Machine.run_cons opens]
    cases fields : r.fields with
    | nil =>
      rw [fields, List.forall₂_nil_left_iff] at holds
      have ends : Machine.step r ⟨[.record (Machine.slots [] []) none], .opened⟩ (byte '\x7d') =
          .ok ⟨[], .ended []⟩ := by
        show Machine.close r [.record [] none] = _
        simp only [Machine.close, fields, Machine.complete]
      rw [holds]
      exact Machine.run_cons ends []
    | cons f after =>
      rw [fields] at holds
      cases ds with
      | nil => cases holds
      | cons d ds =>
        have all : r.fields = [] ++ f :: after := fields
        exact Machine.run_fields all distinct rfl holds ⟨rfl, rfl⟩ []
  rw [Record.read, whole]
  rfl

end GuideRig.Json
