/-
# GuideRig.Proofs.Conf.Extent -- a configuration is loaded whole or not at all

No bot starts from a part of its configuration. A file that was cut off while it was being written, at
whatever byte, is reported as faulty, and so is a file in which anything but spaces follows the
configuration (`load_whole`).
-/

import GuideRig.Proofs.Conf
import GuideRig.Proofs.Json.Reach

namespace GuideRig

open Json

namespace Conf

/-- Of a document that loads and does not end in a space, no part that it begins with loads. Behind a
document that loads there may be spaces and nothing else. -/
theorem load_whole (files : Files) (path : String) {doc : Bytes} {c : Conf}
    (loads : load (files.written path doc) path = .ok c) :
    ((∀ b ∈ doc.getLast?, ¬ IsSpace b) → ∀ cut, cut <+: doc → cut ≠ doc →
      ∃ report, load (files.written path cut) path = .error (.json report)) ∧
    ∀ more, (IsGap more → load (files.written path (doc ++ more)) path = .ok c) ∧
      (¬ IsGap more → ∃ report, load (files.written path (doc ++ more)) path = .error (.json report)) := by
  obtain ⟨ds, fields, made⟩ := load_written_eq_ok_iff.mp loads
  constructor
  · intro last cut begins short
    obtain ⟨f, fails⟩ := Record.read_of_cut fields last begins short
    exact load_written_of_error files path fails
  · intro more
    obtain ⟨spaces, other⟩ := Record.read_append fields more
    constructor
    · intro gap
      exact load_written_eq_ok_iff.mpr ⟨ds, spaces gap, made⟩
    · intro others
      obtain ⟨f, fails⟩ := other others
      exact load_written_of_error files path fails

/-- A document that is cut inside of a letter, and one that is followed by another. -/
theorem load_whole_letter :
    let files : Files := fun _ => .error .notFound
    let doc := Ascii.bytes "\x7b\"queries\":[\"dělat\"],\"actions\":\x7b\x7d\x7d"
    let cut := doc.take 15
    load (files.written "bot.json" doc) "bot.json" = .ok ⟨["dělat"], .empty⟩ ∧
      (∀ b ∈ doc.getLast?, ¬ IsSpace b) ∧ (cut <+: doc ∧ cut ≠ doc) ∧ cut.getLast? = some 0xC4 ∧
      ¬ IsGap doc ∧
      (∃ report, load (files.written "bot.json" cut) "bot.json" = .error (.json report)) ∧
      ∃ report, load (files.written "bot.json" (doc ++ doc)) "bot.json" = .error (.json report) := by
  intro files doc cut
  have written : doc = write ⟨["dělat"], .empty⟩ := by decide
  have loads : load (files.written "bot.json" doc) "bot.json" = .ok ⟨["dělat"], .empty⟩ := by
    simp only [load, Files.bytes_written, written, read_write]
  have ends : doc.getLast? = some (Ascii.byte '\x7d') := by decide
  have last : ∀ b ∈ doc.getLast?, ¬ IsSpace b := by
    rw [ends]
    rintro b ⟨⟩
    decide
  have begins : cut <+: doc := List.take_prefix 15 doc
  have short : cut ≠ doc := by decide
  have inside : cut.getLast? = some 0xC4 := by decide
  have other : ¬ IsGap doc := by decide
  obtain ⟨cuts, followed⟩ := load_whole files "bot.json" loads
  exact ⟨loads, last, ⟨begins, short⟩, inside, other, cuts last cut begins short,
    (followed doc).2 other⟩

end Conf

end GuideRig
