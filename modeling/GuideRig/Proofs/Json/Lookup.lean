/-
# GuideRig.Proofs.Json.Lookup -- what a reader that looks fields up does not see

Of an object only the members that a record knows are looked up. Their order, other members between them
and the layout of the text make no difference, whatever the other members hold (`LooksUp.rearranged`); a
name that is given twice is a fault (`LooksUp.repeated`); and the list form is the object form without the
names (`LooksUp.listed`). Where the value of one field is replaced by another, all the other fields are
read as they were (`FieldPlace.read`).
-/

import GuideRig.Proofs.Json.Fields

namespace GuideRig.Json

open Ascii Machine

variable {r : Record} {doc doc' : Bytes} {members members' : List (List Piece × Tree)}

/-! ## Other members -/

/-- Members with others between them, of names that a record does not know. -/
inductive Widened (r : Record) : List (List Piece × Tree) → List (List Piece × Tree) → Prop
  | nil : Widened r [] []
  | keep {m : List Piece × Tree} {ms ms' : List (List Piece × Tree)} : Widened r ms ms' →
      Widened r (m :: ms) (m :: ms')
  | add {m : List Piece × Tree} {name : String} {ms ms' : List (List Piece × Tree)} :
      text? m.1 = some name → (∀ f ∈ r.fields, f.name ≠ name) → Widened r ms ms' →
      Widened r ms (m :: ms')

theorem Widened.refl (members : List (List Piece × Tree)) : Widened r members members := by
  induction members with
  | nil => exact .nil
  | cons m members ih => exact .keep ih

/-- A record knows none of the members that come in between. -/
theorem Widened.known_eq (h : Widened r members members') : known r members' = known r members := by
  induction h with
  | nil => rfl
  | keep _ ih => rw [known_cons, known_cons, ih]
  | @add m name ms ms' named unknown _ ih =>
    have other : ¬ ∃ f ∈ r.fields, text? m.1 = some f.name := by
      rintro ⟨f, field, same⟩
      exact unknown f field (Option.some.inj (same.symm.trans named))
    rw [known_cons, if_neg other, ih]

theorem Widened.isText (h : Widened r members members') (texts : ∀ m ∈ members, (text? m.1).isSome) :
    ∀ m ∈ members', (text? m.1).isSome := by
  induction h with
  | nil => exact texts
  | keep _ ih =>
    obtain ⟨first, later⟩ := List.forall_mem_cons.mp texts
    exact List.forall_mem_cons.mpr ⟨first, ih later⟩
  | add named _ _ ih => exact List.forall_mem_cons.mpr ⟨by rw [named, Option.isSome_some], ih texts⟩

theorem Record.isText_of_ofMembers? {ds : List Datum} (h : r.ofMembers? members = some ds) :
    ∀ m ∈ members, (text? m.1).isSome := by
  rw [Record.ofMembers?] at h
  split at h
  next texts => exact texts
  next => cases h

theorem Record.ofMembers?_of_isText (texts : ∀ m ∈ members, (text? m.1).isSome) :
    r.ofMembers? members = r.fields.mapM fun f => f.datum? (given members f.name) := if_pos texts

/-! ## The list form of an object -/

/-- A list of what the first fields have been given, one value each, is taken for these fields, and the
fields that are left have not been given anything. -/
theorem ofItems?_of_given {front back : List Field} {items : List Tree}
    (listed : List.Forall₂ (fun f t => given members f.name = [t]) front items)
    (left : ∀ f ∈ back, given members f.name = []) :
    ofItems? (front ++ back) items = (front ++ back).mapM fun f => f.datum? (given members f.name) := by
  induction listed with
  | nil =>
    rw [List.nil_append]
    induction back with
    | nil => rfl
    | cons f back ih =>
      obtain ⟨first, later⟩ := List.forall_mem_cons.mp left
      rw [ofItems?, List.take_nil, List.drop_nil, ih later, List.mapM_cons, first]
      cases f.datum? [] with
      | none => rfl
      | some d => cases back.mapM fun f => f.datum? (given members f.name) <;> rfl
  | @cons f t front items first _ ih =>
    rw [List.cons_append, ofItems?, List.take_succ_cons, List.take_zero, List.drop_succ_cons, List.drop_zero,
      ih, List.mapM_cons, first]
    cases f.datum? [t] with
    | none => rfl
    | some d => cases (front ++ back).mapM fun f => f.datum? (given members f.name) <;> rfl

/-! ## Loaders -/

/-- A loader that looks the fields of a record up. -/
structure LooksUp {α : Type} (r : Record) (loads : Bytes → α → Prop) (fails : Bytes → Prop) : Prop where
  /-- An object loads as before when its members are permuted, others of unknown names are put between
  them and the spaces between the tokens are changed. -/
  rearranged : ∀ {members kept members' : List (List Piece × Tree)} {doc doc' : Bytes} {a : α},
    IsDocument (.object members) doc → loads doc a → members.Perm kept → Widened r kept members' →
    IsDocument (.object members') doc' → loads doc' a
  /-- An object in which a known name comes a second time, at whatever place, fails. -/
  repeated : ∀ {before after : List (List Piece × Tree)} {m : List Piece × Tree} {doc doc' : Bytes} {a : α},
    IsDocument (.object (before ++ after)) doc → loads doc a →
    (∃ f ∈ r.fields, text? m.1 = some f.name ∧ ∃ m' ∈ before ++ after, text? m'.1 = some f.name) →
    IsDocument (.object (before ++ m :: after)) doc' → fails doc'
  /-- The list of the values that an object has for the fields, in the order of the fields, loads as the
  object does. -/
  listed : ∀ {members : List (List Piece × Tree)} {items : List Tree} {front back : List Field}
    {doc doc' : Bytes} {a : α}, IsDocument (.object members) doc → loads doc a → r.fields = front ++ back →
    List.Forall₂ (fun f t => given members f.name = [t]) front items →
    (∀ f ∈ back, given members f.name = []) → IsDocument (.list items) doc' → loads doc' a

theorem toOption_eq_some_iff {ε α : Type} {e : Except ε α} {a : α} : e.toOption = some a ↔ e = .ok a := by
  cases e with
  | ok b => simp [Except.toOption]
  | error _ => simp [Except.toOption]

theorem exists_error_of_toOption {ε α : Type} {e : Except ε α} (h : e.toOption = none) :
    ∃ x, e = .error x := by
  cases e with
  | ok b => cases h
  | error x => exact ⟨x, rfl⟩

/-- A loader that makes something of the fields of a record looks them up. -/
theorem LooksUp.of_read {α : Type} {loads : Bytes → α → Prop} {fails : Bytes → Prop}
    {make : List Datum → α} (some_field : r.fields ≠ []) (fits : ∀ f ∈ r.fields, f.shape.Fits)
    (distinct : (r.fields.map Field.name).Nodup)
    (loads_iff : ∀ {doc a}, loads doc a ↔ ∃ ds, r.read doc = .ok ds ∧ make ds = a)
    (fails_of : ∀ {doc f}, r.read doc = .error f → fails doc) : LooksUp r loads fails := by
  have object {members : List (List Piece × Tree)} {doc : Bytes} {a : α}
      (isDocument : IsDocument (.object members) doc) :
      loads doc a ↔ ∃ ds, r.ofMembers? members = some ds ∧ make ds = a := by
    rw [loads_iff]
    simp only [← toOption_eq_some_iff, Record.read_object fits distinct isDocument]
  refine ⟨?_, ?_, ?_⟩
  · intro members kept members' doc doc' a isDocument loaded perm widened isDocument'
    obtain ⟨ds, fields, made⟩ := (object isDocument).mp loaded
    have texts := Record.isText_of_ofMembers? fields
    have texts' := widened.isText fun m member => texts m (perm.mem_iff.mpr member)
    have same : (known r members).Perm (known r members') := by
      rw [widened.known_eq]
      exact perm.filter _
    exact (object isDocument').mpr ⟨ds, by rw [← Record.ofMembers?_congr texts texts' same, fields], made⟩
  · rintro before after m doc doc' a - - ⟨f, field, named, m', member, named'⟩ isDocument'
    have twice : 2 ≤ (given (before ++ m :: after) f.name).length := by
      have other : m'.2 ∈ given (before ++ after) f.name :=
        List.mem_filterMap.mpr ⟨m', member, if_pos named'⟩
      have some_other := List.length_pos_of_mem other
      rw [given_append, List.length_append] at some_other
      rw [given_append, given_cons, if_pos named, List.length_append, List.length_cons]
      omega
    have none_left := Record.read_object fits distinct isDocument'
    rw [Record.ofMembers?_of_repeated field twice] at none_left
    obtain ⟨fault, error⟩ := exists_error_of_toOption none_left
    exact fails_of error
  · intro members items front back doc doc' a isDocument loaded fields listed left isDocument'
    obtain ⟨ds, looked_up, made⟩ := (object isDocument).mp loaded
    have texts := Record.isText_of_ofMembers? looked_up
    rw [Record.ofMembers?_of_isText texts, fields, ← ofItems?_of_given listed left, ← fields,
      ← Record.read_list some_field fits isDocument', toOption_eq_some_iff] at looked_up
    exact loads_iff.mpr ⟨ds, looked_up, made⟩

/-! ## The place of one field -/

/-- Where the value of a field stands in a document: under its name in an object, or in its place in a
list. -/
inductive FieldPlace (f : Field) (front : List Field) : (Tree → Tree) → Prop
  | named {key : List Piece} {before after : List (List Piece × Tree)} : text? key = some f.name →
      FieldPlace f front fun t => .object (before ++ (key, t) :: after)
  | listed {before after : List Tree} : before.length = front.length →
      FieldPlace f front fun t => .list (before ++ t :: after)

/-- The data that trees are for a shape are data of the shape. -/
theorem Shape.holds_of_datum? {shape : Shape} {t : Tree} {d : Datum} (fits : shape.Fits)
    (h : shape.datum? t = some d) : shape.Holds d := by
  induction shape generalizing t d with
  | text =>
    cases t with
    | string ps =>
      obtain ⟨text, -, rfl⟩ := Option.map_eq_some_iff.mp h
      trivial
    | _ => cases h
  | flag =>
    cases t with
    | flag b =>
      obtain rfl := Option.some.inj h
      trivial
    | _ => cases h
  | whole range =>
    cases t with
    | number literal =>
      obtain ⟨v, -, inside⟩ := Option.bind_eq_some_iff.mp h
      rw [WholeRange.datum?] at inside
      split at inside
      next bounds =>
        obtain rfl := Option.some.inj inside
        obtain ⟨least, most⟩ := fits
        exact ⟨bounds, by omega, by omega⟩
      next => cases inside
    | _ => cases h
  | list item ih =>
    cases t with
    | list items =>
      obtain ⟨ds, values, rfl⟩ := Option.map_eq_some_iff.mp h
      intro d member
      obtain ⟨t, -, value⟩ := exists_of_mem_mapM values member
      exact ih fits value
    | _ => cases h
  | map item ih =>
    cases t with
    | object members =>
      obtain ⟨es, values, rfl⟩ := Option.map_eq_some_iff.mp h
      intro e member
      obtain ⟨m, -, value⟩ := exists_of_mem_mapM values member
      obtain ⟨name, -, value⟩ := Option.bind_eq_some_iff.mp value
      obtain ⟨d, isDatum, rfl⟩ := Option.map_eq_some_iff.mp value
      exact ih fits isDatum
    | _ => cases h

/-- A field that is read, or left to its default, has a datum of its shape. -/
structure Field.Sound (f : Field) : Prop where
  fits : f.shape.Fits
  default : ∀ d ∈ f.default, f.shape.Holds d

theorem Field.Sound.holds {f : Field} {ts : List Tree} {d : Datum} (sound : f.Sound)
    (h : f.datum? ts = some d) : f.shape.Holds d := by
  match ts with
  | [] => exact sound.default d h
  | [t] => exact Shape.holds_of_datum? sound.fits h
  | _ :: _ :: _ => cases h

/-- A field that is read has been given one value and no other. -/
theorem Field.eq_nil_of_datum? {f : Field} {before after : List Tree} {t : Tree} {d : Datum}
    (h : f.datum? (before ++ t :: after) = some d) : before = [] ∧ after = [] := by
  match before, after with
  | [], [] => exact ⟨rfl, rfl⟩
  | [], _ :: _ => cases h
  | [_], _ => cases h
  | _ :: _ :: _, _ => cases h

section Places

variable {fields front back : List Field} {f : Field}

theorem holds_of_mapM {values : Field → List Tree} {ds : List Datum} (sound : ∀ f ∈ fields, f.Sound)
    (h : (fields.mapM fun f => f.datum? (values f)) = some ds) :
    List.Forall₂ (fun f d => f.shape.Holds d) fields ds := by
  have both := (List.forall₂_and_left _ _).mpr ⟨sound, mapM_eq_some_iff.mp h⟩
  exact both.imp fun f d ⟨sound, value⟩ => sound.holds value

theorem holds_of_ofItems? {items : List Tree} {ds : List Datum} (sound : ∀ f ∈ fields, f.Sound)
    (h : ofItems? fields items = some ds) : List.Forall₂ (fun f d => f.shape.Holds d) fields ds := by
  induction fields generalizing items ds with
  | nil =>
    cases items with
    | nil =>
      obtain rfl := Option.some.inj h
      exact .nil
    | cons => cases h
  | cons f fields ih =>
    obtain ⟨first, later⟩ := List.forall_mem_cons.mp sound
    obtain ⟨d, value, rest⟩ := Option.bind_eq_some_iff.mp h
    obtain ⟨ds, values, rfl⟩ := Option.map_eq_some_iff.mp rest
    exact .cons (first.holds value) (ih later values)

theorem ofItems?_append {before items : List Tree} (size : before.length = front.length) :
    ofItems? (front ++ back) (before ++ items) =
      (ofItems? front before).bind fun ds => (ofItems? back items).map fun ds' => ds ++ ds' := by
  induction front generalizing before with
  | nil =>
    rw [List.length_eq_zero_iff.mp size]
    simp [ofItems?]
  | cons f front ih =>
    cases before with
    | nil => cases size
    | cons t before =>
      rw [List.cons_append, List.cons_append, ofItems?, ofItems?, List.take_succ_cons, List.take_succ_cons,
        List.take_zero, List.take_zero, List.drop_succ_cons, List.drop_succ_cons, List.drop_zero,
        List.drop_zero, ih (Nat.succ.inj size)]
      cases f.datum? [t] with
      | none => rfl
      | some d =>
        cases ofItems? front before with
        | none => rfl
        | some ds => cases ofItems? back items <;> rfl

/-- All fields but one are looked up in the members around the one that is given its value. -/
theorem ofMembers?_around {key : List Piece} {before after : List (List Piece × Tree)} {t : Tree}
    (split : r.fields = front ++ f :: back) (distinct : (r.fields.map Field.name).Nodup)
    (named : text? key = some f.name) (texts : ∀ m ∈ before ++ after, (text? m.1).isSome) :
    r.ofMembers? (before ++ (key, t) :: after) =
      (front.mapM fun g : Field => g.datum? (given (before ++ after) g.name)).bind fun ds =>
        (f.datum? (given before f.name ++ t :: given after f.name)).bind fun d =>
          (back.mapM fun g : Field => g.datum? (given (before ++ after) g.name)).bind fun ds' =>
            some (ds ++ d :: ds') := by
  have all_texts : ∀ m ∈ before ++ (key, t) :: after, (text? m.1).isSome := by
    rw [List.forall_mem_append] at texts
    exact List.forall_mem_append.mpr ⟨texts.1, List.forall_mem_cons.mpr ⟨by rw [named]; rfl, texts.2⟩⟩
  have others {g : Field} (member : g ∈ front ++ back) :
      g.datum? (given (before ++ (key, t) :: after) g.name) =
        g.datum? (given (before ++ after) g.name) := by
    have apart : text? key ≠ some g.name := fun same =>
      name_ne (split ▸ distinct) member (Option.some.inj (same.symm.trans named))
    rw [given_append, given_cons, if_neg apart, given_append]
  have in_front := mapM_congr fun g (field : g ∈ front) => others (List.mem_append_left back field)
  have in_back := mapM_congr fun g (field : g ∈ back) => others (List.mem_append_right front field)
  rw [Record.ofMembers?_of_isText all_texts, split, List.mapM_append, List.mapM_cons, in_front, in_back,
    given_append, given_cons, if_pos named]
  simp only [Option.bind_eq_bind, Option.pure_def, Option.bind_assoc, Option.bind_some]

/-- Where the value of a field stands in a document that is read, another may stand: the field is then read
from it, and all other fields are read as they were. -/
theorem FieldPlace.read {tree : Tree → Tree} {t₀ : Tree} {doc₀ : Bytes} {ds₀ : List Datum}
    (split : r.fields = front ++ f :: back) (sound : ∀ f ∈ r.fields, f.Sound)
    (distinct : (r.fields.map Field.name).Nodup) (place : FieldPlace f front tree)
    (isDocument : IsDocument (tree t₀) doc₀) (reads : r.read doc₀ = .ok ds₀) :
    ∃ ds ds', List.Forall₂ (fun f d => f.shape.Holds d) front ds ∧
      List.Forall₂ (fun f d => f.shape.Holds d) back ds' ∧
      ∀ {t : Tree} {doc : Bytes}, IsDocument (tree t) doc →
        (r.read doc).toOption = (f.shape.datum? t).map fun d => ds ++ d :: ds' := by
  have fits : ∀ f ∈ r.fields, f.shape.Fits := fun f field => (sound f field).fits
  have some_field : r.fields ≠ [] := by simp [split]
  have sound_front : ∀ g ∈ front, g.Sound := fun g field =>
    sound g (split ▸ List.mem_append_left _ field)
  have sound_back : ∀ g ∈ back, g.Sound := fun g field =>
    sound g (split ▸ List.mem_append_right _ (List.mem_cons_of_mem f field))
  rw [← toOption_eq_some_iff] at reads
  cases place with
  | @named key before after named =>
    rw [Record.read_object fits distinct isDocument] at reads
    have texts : ∀ m ∈ before ++ after, (text? m.1).isSome := by
      have all_texts := List.forall_mem_append.mp (Record.isText_of_ofMembers? reads)
      exact List.forall_mem_append.mpr ⟨all_texts.1, (List.forall_mem_cons.mp all_texts.2).2⟩
    rw [ofMembers?_around split distinct named texts] at reads
    obtain ⟨ds, values, rest⟩ := Option.bind_eq_some_iff.mp reads
    obtain ⟨d, value, rest⟩ := Option.bind_eq_some_iff.mp rest
    obtain ⟨ds', values', -⟩ := Option.bind_eq_some_iff.mp rest
    have once := Field.eq_nil_of_datum? value
    refine ⟨ds, ds', holds_of_mapM sound_front values, holds_of_mapM sound_back values', ?_⟩
    intro t doc isDocument
    rw [Record.read_object fits distinct isDocument, ofMembers?_around split distinct named texts, values,
      values', once.1, once.2, Option.bind_some, List.nil_append, Field.datum?]
    cases f.shape.datum? t <;> rfl
  | @listed before after size =>
    rw [Record.read_list some_field fits isDocument, split, ofItems?_append size] at reads
    obtain ⟨ds, values, rest⟩ := Option.bind_eq_some_iff.mp reads
    obtain ⟨_, rest, -⟩ := Option.map_eq_some_iff.mp rest
    obtain ⟨d, -, rest⟩ := Option.bind_eq_some_iff.mp rest
    obtain ⟨ds', values', -⟩ := Option.map_eq_some_iff.mp rest
    rw [List.drop_succ_cons, List.drop_zero] at values'
    refine ⟨ds, ds', holds_of_ofItems? sound_front values, holds_of_ofItems? sound_back values', ?_⟩
    intro t doc isDocument
    rw [Record.read_list some_field fits isDocument, split, ofItems?_append size, values, Option.bind_some,
      ofItems?, List.take_succ_cons, List.take_zero, List.drop_succ_cons, List.drop_zero, values',
      Field.datum?]
    cases f.shape.datum? t <;> rfl

end Places

end GuideRig.Json
