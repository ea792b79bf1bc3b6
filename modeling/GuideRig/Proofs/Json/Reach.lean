/-
# GuideRig.Proofs.Json.Reach -- where a document leads the reader

For most of what there is to say about the reader it does not matter at which fault it stops. `reach` tells
the state that some bytes lead to and nothing about faults, so that what a text and more lead to is what
the more leads to from where the text has led (`reach_append`). After the record nothing but spaces may
follow (`Record.read_append`). A document that does not end in a space is therefore read as a whole or not
at all (`Record.read_of_cut`).
-/

import GuideRig.Json.Machine
import GuideRig.Proofs.Json.Grammar

namespace GuideRig.Json

open Ascii

/-- The reader is between two tokens: it waits for the next one. -/
def Phase.waits : Phase → Bool
  | .string _ _ _ _ | .number _ _ _ | .word _ _ _ => false
  | _ => true

namespace Machine

variable {r : Record} {m : Machine} {stack : List Frame} {phase : Phase}

/-- The state that some bytes lead to, unless the reader stops before. -/
def reach (r : Record) (m : Machine) (s : Bytes) : Option Machine := (run r m s).toOption

theorem reach_cons (b : UInt8) (s : Bytes) :
    reach r m (b :: s) = (m.step r b).toOption.bind fun m' => reach r m' s := by
  unfold reach
  rw [run]
  cases m.step r b with
  | ok m' => rfl
  | error stop => rfl

theorem reach_cons_of_step {m' : Machine} {b : UInt8} (h : m.step r b = .ok m') (s : Bytes) :
    reach r m (b :: s) = reach r m' s := by
  rw [reach_cons, h]
  rfl

theorem reach_cons_of_stop {stop : Stop} {b : UInt8} (h : m.step r b = .error stop) (s : Bytes) :
    reach r m (b :: s) = none := by
  rw [reach_cons, h]
  rfl

theorem reach_append (s t : Bytes) :
    reach r m (s ++ t) = (reach r m s).bind fun m' => reach r m' t := by
  induction s generalizing m with
  | nil => rfl
  | cons b s ih =>
    rw [List.cons_append, reach_cons, reach_cons]
    cases m.step r b with
    | ok m' => exact ih
    | error stop => rfl

/-! ## Spaces -/

theorem isSpace_iff {b : UInt8} : isSpace b = true ↔ IsSpace b := by
  simp only [isSpace, Bool.or_eq_true, beq_iff_eq, IsSpace, or_assoc]

theorem isSpace_eq_false_iff {b : UInt8} : isSpace b = false ↔ ¬ IsSpace b := by
  rw [← isSpace_iff, Bool.not_eq_true]

theorem step_space {b : UInt8} (waits : phase.waits = true) (space : IsSpace b) :
    step r ⟨stack, phase⟩ b = .ok ⟨stack, phase⟩ := by
  rw [← isSpace_iff] at space
  cases phase with
  | string | number | word => cases waits
  | value => simp only [step, stepValue, if_pos space]
  | opened => simp only [step, stepOpened, if_pos space]
  | key => simp only [step, stepKey, if_pos space]
  | separator => simp only [step, stepSeparator, if_pos space]
  | colon | surplus | doomed | ended => simp only [step, if_pos space]

/-- Spaces lead nowhere else. -/
theorem reach_gap {gap : Bytes} (waits : phase.waits = true) (spaces : IsGap gap) (s : Bytes) :
    reach r ⟨stack, phase⟩ (gap ++ s) = reach r ⟨stack, phase⟩ s := by
  induction gap with
  | nil => rfl
  | cons b gap ih =>
    obtain ⟨first, later⟩ := List.forall_mem_cons.mp spaces
    rw [List.cons_append, reach_cons_of_step (step_space waits first), ih later]

end Machine

/-! ## The end of a document -/

namespace Record

open Machine

variable {r : Record} {doc : Bytes} {ds : List Datum}

/-- A document is read when it leads to the end of the record. -/
theorem read_eq_ok_iff : r.read doc = .ok ds ↔ ∃ stack, reach r start doc = some ⟨stack, .ended ds⟩ := by
  unfold Record.read reach
  cases start.run r doc with
  | error f => simp [Except.toOption]
  | ok m =>
    obtain ⟨stack, phase⟩ := m
    constructor
    · intro h
      -- no other state has a record at its end
      cases phase with
      | ended fields =>
        obtain rfl := Except.ok.inj h
        exact ⟨stack, rfl⟩
      | number want digit literal =>
        simp only [finish] at h
        split at h
        · split at h <;> cases h
        · cases h
      | _ => cases h
    · rintro ⟨_, ⟨⟩⟩
      rfl

theorem exists_error_of_ne_ok (h : ∀ ds, r.read doc ≠ .ok ds) : ∃ f, r.read doc = .error f := by
  cases out : r.read doc with
  | error f => exact ⟨f, rfl⟩
  | ok ds => exact absurd out (h ds)

/-- A document that is read may be followed by spaces and by nothing else. -/
theorem read_append (h : r.read doc = .ok ds) (more : Bytes) :
    (IsGap more → r.read (doc ++ more) = .ok ds) ∧
      (¬ IsGap more → ∃ f, r.read (doc ++ more) = .error f) := by
  obtain ⟨stack, reached⟩ := read_eq_ok_iff.mp h
  constructor
  · intro gap
    refine read_eq_ok_iff.mpr ⟨stack, ?_⟩
    have stays : reach r ⟨stack, .ended ds⟩ (more ++ []) = some ⟨stack, .ended ds⟩ :=
      reach_gap rfl gap []
    rw [List.append_nil] at stays
    rw [reach_append, reached, Option.bind_some, stays]
  · intro other
    apply exists_error_of_ne_ok
    intro ds' whole
    obtain ⟨stack', reached'⟩ := read_eq_ok_iff.mp whole
    rw [reach_append, reached, Option.bind_some] at reached'
    apply other
    clear whole reached h other
    induction more with
    | nil => exact List.forall_mem_nil _
    | cons b more ih =>
      by_cases space : IsSpace b
      · rw [reach_cons_of_step (step_space rfl space)] at reached'
        exact List.forall_mem_cons.mpr ⟨space, ih reached'⟩
      · have stops : step r ⟨stack, .ended ds⟩ b = stop .trailingCharacters := by
          simp only [step, isSpace_eq_false_iff.mpr space, Bool.false_eq_true, if_false]
        rw [reach_cons_of_stop stops] at reached'
        cases reached'

/-- A document that is read and does not end in a space is not read without its end. -/
theorem read_of_cut (h : r.read doc = .ok ds) (last : ∀ b ∈ doc.getLast?, ¬ IsSpace b) {cut : Bytes}
    (begins : cut <+: doc) (short : cut ≠ doc) : ∃ f, r.read cut = .error f := by
  apply exists_error_of_ne_ok
  intro ds' early
  obtain ⟨more, rfl⟩ := begins
  have rest : more ≠ [] := by
    rintro rfl
    exact short (List.append_nil cut).symm
  -- what comes after the cut would be spaces, and the last of it is none
  have other : ¬ IsGap more := by
    intro gap
    refine last (more.getLast rest) ?_ (gap _ (List.getLast_mem rest))
    simp [List.getLast?_append, List.getLast?_eq_some_getLast rest]
  obtain ⟨f, fails⟩ := (read_append early more).2 other
  rw [h] at fails
  cases fails

end Record

end GuideRig.Json
