/-
# GuideRig.Proofs.Http.Closing -- how a reader comes to an end by itself

A reader takes one byte at a time. In some of its states it waits for more, and these are open. A text
closes a state when it takes the reader through open states only to one that is not (`Closes`). Whoever
cuts such a text short leaves the reader in an open state. What closes a state is told by its steps; a
state that goes round takes what it goes round on in one piece (`closes_loop`), and states that read a
line take it with its end (`closes_line_iff`).

Nothing here depends on what is read, so that the fields of a head, which are read by a machine of their
own, are told in the same words as the responses that they belong to.
-/

import Mathlib.Tactic.Common
import GuideRig.Proofs.Http.Grammar

namespace GuideRig.Http

open Ascii

/-- A text takes a state to one that is not open, and through open states until then. -/
inductive Closes {σ ε : Type} (step : σ → UInt8 → Except ε σ) (IsOpen : σ → Prop) : σ → Bytes → σ → Prop
  | here {e : σ} : ¬ IsOpen e → Closes step IsOpen e [] e
  | cons {r r' e : σ} {b : UInt8} {s : Bytes} : IsOpen r → step r b = .ok r' →
      Closes step IsOpen r' s e → Closes step IsOpen r (b :: s) e

section Closing

variable {σ ε : Type} {step : σ → UInt8 → Except ε σ} {IsOpen : σ → Prop} {r r' e : σ} {s : Bytes}

theorem closes_of_not_open (closed : ¬ IsOpen r) : Closes step IsOpen r s e ↔ s = [] ∧ e = r := by
  constructor
  · rintro (_ | ⟨isOpen, _, _⟩)
    · exact ⟨rfl, rfl⟩
    · exact absurd isOpen closed
  · rintro ⟨rfl, rfl⟩
    exact .here closed

theorem Closes.end_not_open (h : Closes step IsOpen r s e) : ¬ IsOpen e := by
  induction h with
  | here closed => exact closed
  | cons _ _ _ ih => exact ih

/-! ## Steps -/

theorem closes_cons_iff (isOpen : IsOpen r) {b : UInt8} :
    Closes step IsOpen r (b :: s) e ↔ ∃ r', step r b = .ok r' ∧ Closes step IsOpen r' s e := by
  constructor
  · rintro (_ | ⟨_, one, after⟩)
    exact ⟨_, one, after⟩
  · rintro ⟨r', one, after⟩
    exact .cons isOpen one after

theorem not_closes_nil (isOpen : IsOpen r) : ¬ Closes step IsOpen r [] e := by
  rintro (⟨closed⟩ | _)
  exact closed isOpen

/-- The first byte, and what it leads to. -/
theorem closes_step_iff (isOpen : IsOpen r) : Closes step IsOpen r s e ↔
    ∃ b rest r', s = b :: rest ∧ step r b = .ok r' ∧ Closes step IsOpen r' rest e := by
  cases s with
  | nil => exact ⟨fun h => absurd h (not_closes_nil isOpen), fun ⟨_, _, _, h, _⟩ => nomatch h⟩
  | cons b s =>
    rw [closes_cons_iff isOpen]
    constructor
    · rintro ⟨r', one, after⟩
      exact ⟨b, s, r', rfl, one, after⟩
    · rintro ⟨_, _, r', ⟨⟩, one, after⟩
      exact ⟨r', one, after⟩

/-- A state in which only one byte can come. -/
theorem closes_due_iff (isOpen : IsOpen r) {due : UInt8} (fault : ε)
    (one : ∀ b, step r b = if b = due then .ok r' else .error fault) :
    Closes step IsOpen r s e ↔ ∃ rest, s = due :: rest ∧ Closes step IsOpen r' rest e := by
  rw [closes_step_iff isOpen]
  constructor
  · rintro ⟨b, rest, next, rfl, stepped, after⟩
    rw [one] at stepped
    split at stepped
    · rename_i here
      obtain rfl := Except.ok.inj stepped
      exact ⟨rest, by rw [here], after⟩
    · cases stepped
  · rintro ⟨rest, rfl, after⟩
    exact ⟨due, rest, r', rfl, by rw [one, if_pos rfl], after⟩

/-- States that go round on the bytes of a class, gathering something from them: what is gone round on is
the part up to the first byte that is not of the class. -/
theorem closes_loop {α : Type} {state : α → σ} {f : α → UInt8 → α} {P : UInt8 → Prop}
    (isOpen : ∀ a, IsOpen (state a)) (round : ∀ a b, P b → step (state a) b = .ok (state (f a b)))
    (a : α) : Closes step IsOpen (state a) s e ↔
      ∃ t b rest r', s = t ++ b :: rest ∧ (∀ x ∈ t, P x) ∧ ¬ P b ∧
        step (state (t.foldl f a)) b = .ok r' ∧ Closes step IsOpen r' rest e := by
  constructor
  · intro h
    induction s generalizing a with
    | nil => exact absurd h (not_closes_nil (isOpen a))
    | cons b s ih =>
      obtain ⟨r', one, after⟩ := (closes_cons_iff (isOpen a)).mp h
      by_cases inside : P b
      · obtain rfl := Except.ok.inj (one.symm.trans (round a b inside))
        obtain ⟨t, c, rest, r'', rfl, all, out, left, after⟩ := ih _ after
        exact ⟨b :: t, c, rest, r'', rfl, List.forall_mem_cons.mpr ⟨inside, all⟩, out, left, after⟩
      · exact ⟨[], b, s, r', rfl, nofun, inside, one, after⟩
  · rintro ⟨t, b, rest, r', rfl, all, -, left, after⟩
    induction t generalizing a with
    | nil => exact .cons (isOpen a) left after
    | cons c t ih =>
      obtain ⟨first, all⟩ := List.forall_mem_cons.mp all
      exact .cons (isOpen a) (round a c first) (ih (f a c) all left)

/-- The same where nothing is gathered. -/
theorem closes_stay {P : UInt8 → Prop} (isOpen : IsOpen r) (round : ∀ b, P b → step r b = .ok r) :
    Closes step IsOpen r s e ↔
      ∃ t b rest r', s = t ++ b :: rest ∧ (∀ x ∈ t, P x) ∧ ¬ P b ∧ step r b = .ok r' ∧
        Closes step IsOpen r' rest e :=
  @closes_loop _ _ _ _ _ _ Unit (fun _ => r) (fun _ _ => ()) P (fun _ => isOpen) (fun _ => round) ()

/-! ## Lines -/

/-- The rest of a line of a head. What is gathered from its bytes goes on to the next state, and a line
may end with both halves of a line end or with the second alone. -/
theorem closes_line_iff {α : Type} {state half next : α → σ} {f : α → UInt8 → α} {P : UInt8 → Bool}
    {fault fault' : ε} (isOpen : ∀ a, IsOpen (state a)) (isOpen_half : ∀ a, IsOpen (half a))
    (first : ∀ a b, step (state a) b =
      if b = byte '\r' then .ok (half a)
      else if b = byte '\n' then .ok (next a)
      else if P b then .ok (state (f a b))
      else .error fault)
    (second : ∀ a b, step (half a) b = if b = byte '\n' then .ok (next a) else .error fault')
    (free : P (byte '\r') = false ∧ P (byte '\n') = false) (a : α) :
    Closes step IsOpen (state a) s e ↔
      ∃ text ending rest, s = text ++ ending ++ rest ∧ (∀ b ∈ text, P b = true) ∧ IsLineEnd ending ∧
        Closes step IsOpen (next (text.foldl f a)) rest e := by
  have inside : ∀ {b c : UInt8}, P b = true → P c = false → b ≠ c := by
    rintro b _ within out rfl
    rw [within] at out
    cases out
  have round : ∀ a b, P b = true → step (state a) b = .ok (state (f a b)) := by
    intro a b within
    rw [first, if_neg (inside within free.1), if_neg (inside within free.2), if_pos within]
  rw [closes_loop isOpen round]
  constructor
  · rintro ⟨text, b, rest, r', rfl, all, ends, left, after⟩
    rw [first] at left
    by_cases half_end : b = byte '\r'
    · rw [if_pos half_end] at left
      obtain rfl := Except.ok.inj left
      obtain ⟨rest, rfl, closing⟩ := (closes_due_iff (isOpen_half _) _ (second _)).mp after
      exact ⟨text, [byte '\r', byte '\n'], rest, by simp [half_end], all, .inr rfl, closing⟩
    · rw [if_neg half_end] at left
      by_cases whole_end : b = byte '\n'
      · rw [if_pos whole_end] at left
        obtain rfl := Except.ok.inj left
        exact ⟨text, [byte '\n'], rest, by simp [whole_end], all, .inl rfl, after⟩
      · rw [if_neg whole_end, if_neg ends] at left
        cases left
  · rintro ⟨text, _, rest, rfl, all, rfl | rfl, after⟩
    · refine ⟨text, byte '\n', rest, _, by simp, all, by simp [free.2], ?_, after⟩
      rw [first, if_neg (by decide), if_pos rfl]
    · refine ⟨text, byte '\r', byte '\n' :: rest, half (text.foldl f a), by simp, all,
        by simp [free.1], ?_, ?_⟩
      · rw [first, if_pos rfl]
      · exact (closes_due_iff (isOpen_half _) _ (second _)).mpr ⟨rest, rfl, after⟩

end Closing

end GuideRig.Http
