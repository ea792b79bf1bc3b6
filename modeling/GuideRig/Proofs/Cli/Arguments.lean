/-
# GuideRig.Proofs.Cli.Arguments -- what arguments give

Arguments give texts to the slots of a command: to a setting in either of two ways, to the argument without a
name wherever it stands, and in any order; behind two dashes nothing is a setting any more (`Gives`). Texts
fill slots when each of them is a value of the kind asked for and no slot is filled twice (`Fills`). What has
been filled in is then found under the name of its slot, and nothing else is (`Fills.lookup_of_mem`,
`Fills.mem_of_lookup`). Neither says how arguments are read.
-/

import Mathlib.Data.List.Nodup
import GuideRig.Cli.Command

namespace GuideRig.Cli

/-! ## What arguments give -/

/-- The slots of a command. -/
def Command.slots (c : Command) : List Slot := c.settings.map .setting ++ c.place.toList.map .place

/-- The slots of a command can be told apart by their names, and the names of its settings from what follows
them and from two dashes alone. -/
structure Command.IsClear (c : Command) : Prop where
  distinct : (c.slots.map Slot.name).Nodup
  named : ∀ s ∈ c.settings, s.name ≠ ""
  uncut : ∀ s ∈ c.settings, '=' ∉ s.name.toList

/-- An argument that can be a value of its own: no dash stands in front of it, save that it may be a dash. -/
def IsFree (arg : String) : Prop := ∀ letter s, arg.toList ≠ '-' :: letter :: s

/-- The texts that arguments give, in order, and what they give them to. The flag says whether nothing that
follows is a setting. -/
inductive Gives (c : Command) : Bool → List String → List (Slot × String) → Prop
  | nil {plain : Bool} : Gives c plain [] []
  /-- A setting and its value in one argument. -/
  | joined {s : Setting} {args : List String} {texts : List (Slot × String)} (value : String) :
      s ∈ c.settings → Gives c false args texts →
      Gives c false (("--" ++ s.name ++ "=" ++ value) :: args) ((.setting s, value) :: texts)
  /-- A setting and its value in an argument each. -/
  | apart {s : Setting} {value : String} {args : List String} {texts : List (Slot × String)} :
      s ∈ c.settings → IsFree value → Gives c false args texts →
      Gives c false (("--" ++ s.name) :: value :: args) ((.setting s, value) :: texts)
  /-- The argument without a name. -/
  | placed {p : Place} {value : String} {args : List String} {texts : List (Slot × String)} :
      c.place = some p → IsFree value → Gives c false args texts →
      Gives c false (value :: args) ((.place p, value) :: texts)
  /-- The end of the settings. -/
  | ended {args : List String} {texts : List (Slot × String)} :
      Gives c true args texts → Gives c false ("--" :: args) texts
  /-- The argument without a name after the end of the settings: it may begin with dashes. -/
  | after {p : Place} {args : List String} {texts : List (Slot × String)} (value : String) :
      c.place = some p → Gives c true args texts → Gives c true (value :: args) ((.place p, value) :: texts)

/-- Texts fill slots in addition to those that are filled: each is a value of its slot's kind, and no slot is
filled twice. -/
inductive Fills : Given → List (Slot × String) → Given → Prop
  | nil {given : Given} : Fills given [] given
  | cons {given full : Given} {slot : Slot} {text : String} {v : Value} {texts : List (Slot × String)} :
      slot.name ∉ given.map Prod.fst → slot.kind.read text = .ok v →
      Fills (given ++ [(slot.name, v)]) texts full → Fills given ((slot, text) :: texts) full

variable {c : Command} {p : Place} {s : Setting} {slot : Slot} {arg text value : String} {args : List String}
variable {texts more : List (Slot × String)} {given full : Given} {plain : Bool}

theorem isFree_of_head (undashed : arg.toList.head? ≠ some '-') : IsFree arg := by
  intro letter s dashed
  rw [dashed] at undashed
  exact undashed rfl

theorem Command.setting_mem (c : Command) (known : s ∈ c.settings) : .setting s ∈ c.slots :=
  List.mem_append_left _ (List.mem_map_of_mem known)

theorem Command.place_mem (c : Command) (known : c.place = some p) : .place p ∈ c.slots := by
  apply List.mem_append_right
  simp [known]

/-- The names of the slots of a clear command tell them apart. -/
theorem Command.IsClear.eq_of_name (clear : c.IsClear) {slot' : Slot} (member : slot ∈ c.slots)
    (member' : slot' ∈ c.slots) (same : slot.name = slot'.name) : slot = slot' :=
  List.inj_on_of_nodup_map clear.distinct member member' same

theorem Gives.slots (gives : Gives c plain args texts) : ∀ e ∈ texts, e.1 ∈ c.slots := by
  induction gives with
  | nil => exact List.forall_mem_nil _
  | joined value known _ ih => exact List.forall_mem_cons.mpr ⟨c.setting_mem known, ih⟩
  | apart known _ _ ih => exact List.forall_mem_cons.mpr ⟨c.setting_mem known, ih⟩
  | placed known _ _ ih => exact List.forall_mem_cons.mpr ⟨c.place_mem known, ih⟩
  | ended _ ih => exact ih
  | after value known _ ih => exact List.forall_mem_cons.mpr ⟨c.place_mem known, ih⟩

/-! ## Filling slots -/

theorem lookup_eq_none_iff {name : String} : given.lookup name = none ↔ name ∉ given.map Prod.fst := by
  rw [List.lookup_eq_none_iff, List.mem_map]
  constructor
  · rintro others ⟨e, member, rfl⟩
    simpa using others e member
  · intro absent e member
    simpa using fun same : name = e.1 => absent ⟨e, member, same.symm⟩

namespace Fills

theorem append_iff :
    Fills given (texts ++ more) full ↔ ∃ partly, Fills given texts partly ∧ Fills partly more full := by
  induction texts generalizing given with
  | nil =>
    constructor
    · intro fills
      exact ⟨given, .nil, fills⟩
    · rintro ⟨partly, first, fills⟩
      cases first
      exact fills
  | cons e texts ih =>
    constructor
    · intro fills
      cases fills with
      | cons fresh read fills =>
        obtain ⟨partly, first, last⟩ := ih.mp fills
        exact ⟨partly, .cons fresh read first, last⟩
    · rintro ⟨partly, first, last⟩
      cases first with
      | cons fresh read first => exact .cons fresh read (ih.mpr ⟨partly, first, last⟩)

theorem singleton_iff : Fills given [(slot, text)] full ↔
    slot.name ∉ given.map Prod.fst ∧ ∃ v, slot.kind.read text = .ok v ∧ full = given ++ [(slot.name, v)] := by
  constructor
  · intro fills
    cases fills with
    | cons fresh read rest =>
      cases rest
      exact ⟨fresh, _, read, rfl⟩
  · rintro ⟨fresh, v, read, rfl⟩
    exact .cons fresh read .nil

theorem names (fills : Fills given texts full) :
    full.map Prod.fst = given.map Prod.fst ++ texts.map fun e => e.1.name := by
  induction fills with
  | nil => simp
  | cons _ _ _ ih => simpa using ih

/-- A slot that is filled is not filled again. -/
theorem fresh (fills : Fills given (texts ++ (slot, text) :: more) full) :
    slot.name ∉ given.map Prod.fst ++ texts.map fun e => e.1.name := by
  obtain ⟨partly, first, last⟩ := append_iff.mp fills
  rw [← first.names]
  cases last with
  | cons fresh _ _ => exact fresh

theorem lookup_of_lookup (fills : Fills given texts full) {name : String} {v : Value}
    (found : given.lookup name = some v) : full.lookup name = some v := by
  induction fills with
  | nil => exact found
  | cons _ _ _ ih =>
    apply ih
    rw [List.lookup_append, found, Option.some_or]

/-- What a text gives is found under the name of its slot. -/
theorem lookup_of_mem (fills : Fills given texts full) (member : (slot, text) ∈ texts) :
    ∃ v, slot.kind.read text = .ok v ∧ full.lookup slot.name = some v := by
  induction fills with
  | nil => cases member
  | @cons given full slot' text' v texts fresh read fills ih =>
    rcases List.mem_cons.mp member with first | later
    · cases first
      refine ⟨v, read, fills.lookup_of_lookup ?_⟩
      rw [List.lookup_append, lookup_eq_none_iff.mpr fresh, Option.none_or]
      exact List.lookup_cons_self
    · exact ih later

/-- What is found has been given by a text. -/
theorem mem_of_lookup (fills : Fills [] texts full) {name : String} {v : Value}
    (found : full.lookup name = some v) : ∃ slot text, (slot, text) ∈ texts ∧ slot.name = name := by
  have named : name ∈ full.map Prod.fst := by
    by_contra absent
    rw [lookup_eq_none_iff.mpr absent] at found
    cases found
  rw [fills.names, List.map_nil, List.nil_append] at named
  obtain ⟨⟨slot, text⟩, member, same⟩ := List.mem_map.mp named
  exact ⟨slot, text, member, same⟩

end Fills

end GuideRig.Cli
