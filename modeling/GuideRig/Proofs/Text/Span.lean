/-
# GuideRig.Proofs.Text.Span -- the front of a text, up to where it stops

Most readers take what is of one kind from the front of a text and go on behind it. Over a part that is of
the kind they come to its end and no further, as long as what follows the part is not of the kind too
(`Stops`). Parts may be of bytes or of characters.
-/

import Mathlib.Data.List.TakeWhile

namespace GuideRig

variable {α : Type} {p : α → Bool} {part rest : List α}

/-- What comes next is not of the kind. -/
def Stops (p : α → Bool) (s : List α) : Prop := ∀ a ∈ s.head?, p a = false

theorem stops_nil (p : α → Bool) : Stops p [] := by
  rintro a ⟨⟩

theorem stops_cons {a : α} (other : p a = false) (s : List α) : Stops p (a :: s) := by
  rintro _ ⟨⟩
  exact other

theorem takeWhile_part (kind : ∀ a ∈ part, p a = true) (stops : Stops p rest) :
    (part ++ rest).takeWhile p = part := by
  rw [List.takeWhile_append_of_pos kind]
  cases rest with
  | nil => rw [List.takeWhile_nil, List.append_nil]
  | cons a rest => rw [List.takeWhile_cons_of_neg (ne_true_of_eq_false (stops a rfl)), List.append_nil]

theorem dropWhile_part (kind : ∀ a ∈ part, p a = true) (stops : Stops p rest) :
    (part ++ rest).dropWhile p = rest := by
  rw [List.dropWhile_append_of_pos kind]
  cases rest with
  | nil => rfl
  | cons a rest => exact List.dropWhile_cons_of_neg (ne_true_of_eq_false (stops a rfl))

/-- A sign that stands neither in a part nor behind it is not what taking a kind from its front comes to. -/
theorem head?_dropWhile_part {sign : α} (absent : ∀ a ∈ part, a ≠ sign) (stops : Stops p rest)
    (other : rest.head? ≠ some sign) : ((part ++ rest).dropWhile p).head? ≠ some sign := by
  induction part with
  | nil =>
    have whole : ([] ++ rest).dropWhile p = rest := dropWhile_part (List.forall_mem_nil _) stops
    rw [whole]
    exact other
  | cons a part ih =>
    obtain ⟨first, later⟩ := List.forall_mem_cons.mp absent
    rw [List.cons_append, List.dropWhile_cons]
    split
    · exact ih later
    · exact fun same => first (Option.some.inj same)

end GuideRig
