/-
# GuideRig.Proofs.Json.Meaning -- what a tree means to a shape and to a record

A tree has at most one datum for a shape (`Shape.datum?`); a number has one only if its literal writes a
whole number in the range of the shape, and here that number is exact however many digits there are. The
fields of a record are looked up by name among the members of an object (`Record.ofMembers?`) or taken in
their order from the items of a list (`Record.ofItems?`). That the members are looked up says all at once:
their order does not matter, nor do members of other names (`Record.ofMembers?_congr`), and a name that is
given twice gives nothing (`Record.ofMembers?_of_repeated`).
-/

import GuideRig.Proofs.Json.Tree

namespace GuideRig.Json

open Ascii

/-! ## Lists of which every item has a value -/

section Lists

variable {α β : Type} {f g : α → Option β} {l : List α}

theorem mapM_congr (h : ∀ a ∈ l, f a = g a) : l.mapM f = l.mapM g := by
  induction l with
  | nil => rfl
  | cons a l ih =>
    obtain ⟨first, later⟩ := List.forall_mem_cons.mp h
    rw [List.mapM_cons, List.mapM_cons, first, ih later]

theorem mapM_eq_some_iff {m : List β} :
    l.mapM f = some m ↔ List.Forall₂ (fun a b => f a = some b) l m := by
  induction l generalizing m with
  | nil =>
    rw [List.forall₂_nil_left_iff, List.mapM_nil]
    exact ⟨fun h => (Option.some.inj h).symm, fun h => h ▸ rfl⟩
  | cons a l ih =>
    rw [List.mapM_cons, List.forall₂_cons_left_iff]
    constructor
    · intro h
      obtain ⟨b, value, h⟩ := Option.bind_eq_some_iff.mp h
      obtain ⟨bs, values, h⟩ := Option.bind_eq_some_iff.mp h
      exact ⟨b, bs, value, ih.mp values, (Option.some.inj h).symm⟩
    · rintro ⟨b, bs, value, values, rfl⟩
      rw [value, ih.mpr values]
      rfl

theorem exists_of_mem_mapM {m : List β} (h : l.mapM f = some m) {b : β} (member : b ∈ m) :
    ∃ a ∈ l, f a = some b := by
  have values := mapM_eq_some_iff.mp h
  clear h
  induction values with
  | nil => cases member
  | cons first _ ih =>
    rcases List.mem_cons.mp member with rfl | later
    · exact ⟨_, List.mem_cons_self, first⟩
    · obtain ⟨a, inside, value⟩ := ih later
      exact ⟨a, List.mem_cons_of_mem _ inside, value⟩

theorem mapM_eq_none {a : α} (member : a ∈ l) (h : f a = none) : l.mapM f = none := by
  obtain ⟨before, after, rfl⟩ := List.append_of_mem member
  rw [List.mapM_append, List.mapM_cons, h]
  cases before.mapM f with
  | none => rfl
  | some bs => rfl

end Lists

/-! ## Values -/

/-- The whole number that a literal writes. A literal with a fraction or an exponent writes none, and
neither does `-0`. -/
def whole? (literal : Bytes) : Option Int :=
  match literal with
  | [] => none
  | b :: ds =>
    if b = byte '-' then
      if ds.all isDigit ∧ ds ≠ [byte '0'] then some (-(value ds : Int)) else none
    else if (b :: ds).all isDigit then some (value (b :: ds)) else none

/-- A whole number in a range. -/
def WholeRange.datum? (range : WholeRange) (v : Int) : Option Datum :=
  if range.low ≤ v ∧ v ≤ range.high then some (.whole v) else none

/-- A name and what stands under it. -/
def named? {α : Type} (key : List Piece) (value : Option α) : Option (String × α) :=
  (text? key).bind fun name => value.map fun v => (name, v)

/-- The datum that a tree is for a shape. -/
def Shape.datum? : Shape → Tree → Option Datum
  | .text, .string ps => (text? ps).map .text
  | .flag, .flag b => some (.flag b)
  | .whole range, .number literal => (whole? literal).bind range.datum?
  | .list item, .list items => (items.mapM item.datum?).map .list
  | .map item, .object members => (members.mapM fun m => named? m.1 (item.datum? m.2)).map .map
  | _, _ => none

/-! ## Records -/

/-- What stands under a name. -/
def given (members : List (List Piece × Tree)) (name : String) : List Tree :=
  members.filterMap fun m => if text? m.1 = some name then some m.2 else none

/-- The datum of a field that has been given some values: one, or none if there is a default. -/
def Field.datum? (f : Field) : List Tree → Option Datum
  | [] => f.default
  | [t] => f.shape.datum? t
  | _ => none

/-- The fields of a record in its object form. Every key has to be a text. -/
def Record.ofMembers? (r : Record) (members : List (List Piece × Tree)) : Option (List Datum) :=
  if ∀ m ∈ members, (text? m.1).isSome then r.fields.mapM fun f => f.datum? (given members f.name)
  else none

/-- The fields of a record in its list form; items that are left out at the end have their defaults. -/
def ofItems? : List Field → List Tree → Option (List Datum)
  | [], [] => some []
  | [], _ :: _ => none
  | f :: fs, items =>
    (f.datum? (items.take 1)).bind fun d => (ofItems? fs (items.drop 1)).map fun ds => d :: ds

/-! ## Members are looked up -/

section Members

variable {r : Record} {members members' : List (List Piece × Tree)}

/-- The members whose names a record knows. -/
def known (r : Record) (members : List (List Piece × Tree)) : List (List Piece × Tree) :=
  members.filter fun m => decide (∃ f ∈ r.fields, text? m.1 = some f.name)

theorem given_append (name : String) :
    given (members ++ members') name = given members name ++ given members' name :=
  List.filterMap_append

theorem given_cons (m : List Piece × Tree) (name : String) :
    given (m :: members) name =
      if text? m.1 = some name then m.2 :: given members name else given members name := by
  rw [given, List.filterMap_cons]
  split
  · next none => rw [if_neg (by simpa using none), given]
  · next t some =>
    split at some
    · next same => rw [if_pos same, ← Option.some.inj some, given]
    · cases some

theorem given_of_perm (h : members.Perm members') (name : String) :
    (given members name).Perm (given members' name) :=
  h.filterMap _

theorem known_cons (m : List Piece × Tree) :
    known r (m :: members) =
      if ∃ f ∈ r.fields, text? m.1 = some f.name then m :: known r members else known r members := by
  simp only [known, List.filter_cons, decide_eq_true_eq]

/-- What stands under the name of a field stands there for one of the members that the record knows. -/
theorem given_known {f : Field} (field : f ∈ r.fields) :
    given (known r members) f.name = given members f.name := by
  induction members with
  | nil => rfl
  | cons m members ih =>
    rw [known_cons, given_cons]
    by_cases isKnown : ∃ f ∈ r.fields, text? m.1 = some f.name
    · rw [if_pos isKnown, given_cons, ih]
    · have other : text? m.1 ≠ some f.name := fun same => isKnown ⟨f, field, same⟩
      rw [if_neg isKnown, if_neg other, ih]

/-- A field does not see in which order it has been given its values. -/
theorem Field.datum?_of_perm (f : Field) {ts ts' : List Tree} (h : ts.Perm ts') :
    f.datum? ts = f.datum? ts' := by
  match ts, h with
  | [], h => rw [h.nil_eq]
  | [t], h => rw [h.singleton_eq]
  | t :: u :: ts, h =>
    have size := h.length_eq
    match ts', size with
    | _ :: _ :: _, _ => rfl

/-- Only the members that a record knows matter to it, and not their order. -/
theorem Record.ofMembers?_congr (names : ∀ m ∈ members, (text? m.1).isSome)
    (names' : ∀ m ∈ members', (text? m.1).isSome) (h : (known r members).Perm (known r members')) :
    r.ofMembers? members = r.ofMembers? members' := by
  rw [Record.ofMembers?, Record.ofMembers?, if_pos names, if_pos names']
  apply mapM_congr
  intro f field
  rw [← given_known field, ← @given_known r members' f field]
  exact f.datum?_of_perm (given_of_perm h f.name)

/-- A name that is given twice gives nothing. -/
theorem Record.ofMembers?_of_repeated {f : Field} (field : f ∈ r.fields)
    (twice : 2 ≤ (given members f.name).length) : r.ofMembers? members = none := by
  have none_for : f.datum? (given members f.name) = none := by
    match given members f.name, twice with
    | _ :: _ :: _, _ => rfl
  rw [Record.ofMembers?]
  split
  · exact mapM_eq_none field none_for
  · rfl

end Members

end GuideRig.Json
