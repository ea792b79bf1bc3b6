/-
# GuideRig.Proofs.Json.Reading -- where the text of a tree leads the reader

A list or object that is open is a system of its own: its parts take it from state to state, with commas
and spaces between them, up to the bracket that closes it (`Bracket.reach_enclosed`). What a part does is
told by what its value means, so that by induction over a tree its text leads to where the datum of the
tree has been handed over, or past the tree if nobody asked for it, and nowhere if it has no datum
(`IsText.leads`). Nothing in this depends on the layout of the text.
-/

import GuideRig.Proofs.Json.Token

namespace GuideRig.Json

open Ascii Machine

/-! ## Brackets -/

/-- A list or object that is open: its states, and what it makes of the parts that it is given. -/
structure Bracket (σ α : Type) where
  /-- Before the first part. -/
  init : σ
  stack : σ → List Frame
  /-- How the reader waits for a part after a comma. -/
  ready : σ → Phase
  /-- What a part makes of a state. -/
  next : σ → α → Option σ

/-- The text of a part leads to what the part makes of the state, first in the bracket or after a comma. -/
structure Bracket.TakesPart {σ α : Type} (k : Bracket σ α) (r : Record) (a : α) (s : Bytes) : Prop where
  first : ∀ b rest, IsEnding b → reach r ⟨k.stack k.init, .opened⟩ (s ++ b :: rest) =
    (k.next k.init a).bind fun v => reach r ⟨k.stack v, .separator⟩ (b :: rest)
  later : ∀ v b rest, IsEnding b → reach r ⟨k.stack v, k.ready v⟩ (s ++ b :: rest) =
    (k.next v a).bind fun v' => reach r ⟨k.stack v', .separator⟩ (b :: rest)

/-- The marks of a bracket do what they stand for. -/
structure Bracket.Marked {σ α : Type} (k : Bracket σ α) (r : Record) (closing : UInt8) : Prop where
  closes : IsClosing closing
  waits : ∀ v, (k.ready v).waits = true
  comma : ∀ v, step r ⟨k.stack v, .separator⟩ (byte ',') = .ok ⟨k.stack v, k.ready v⟩
  ends : ∀ v, step r ⟨k.stack v, .separator⟩ closing = close r (k.stack v)
  empty : step r ⟨k.stack k.init, .opened⟩ closing = close r (k.stack k.init)

namespace Bracket

variable {σ α : Type} {k : Bracket σ α} {r : Record} {closing : UInt8} {as : List α} {parts : List Bytes}

/-- Spaces behind a part are passed over. -/
theorem reach_after {gap : Bytes} (spaces : IsGap gap) {b : UInt8} (closes : IsClosing b)
    {phase : Phase} {v : σ} {a : α} {s : Bytes}
    (takes : ∀ b rest, IsEnding b → reach r ⟨k.stack v, phase⟩ (s ++ b :: rest) =
      (k.next v a).bind fun v' => reach r ⟨k.stack v', .separator⟩ (b :: rest)) (rest : Bytes) :
    reach r ⟨k.stack v, phase⟩ (s ++ gap ++ b :: rest) =
      (k.next v a).bind fun v' => reach r ⟨k.stack v', .separator⟩ (b :: rest) := by
  cases gap with
  | nil =>
    rw [List.append_nil]
    exact takes b rest (.inl closes)
  | cons c gap =>
    have space : IsSpace c := spaces c List.mem_cons_self
    rw [List.append_assoc, List.cons_append, takes c _ (.inr space)]
    congr 1
    funext v'
    rw [← List.cons_append, reach_gap rfl spaces]

/-- Parts in a row are taken one after the other. -/
theorem reach_row {body : Bytes} (marked : k.Marked r closing) (row : IsRow parts body)
    (takes : List.Forall₂ (k.TakesPart r) as parts) (v : σ) (rest : Bytes) :
    reach r ⟨k.stack v, k.ready v⟩ (body ++ closing :: rest) =
      (as.foldlM k.next v).bind fun v' => (close r (k.stack v')).toOption.bind fun m => reach r m rest := by
  induction row generalizing as v with
  | @last before part after spaces spaces' =>
    obtain ⟨a, _, takesPart, others, rfl⟩ := List.forall₂_cons_right_iff.mp takes
    obtain rfl := List.forall₂_nil_right_iff.mp others
    rw [List.append_assoc, List.append_assoc, reach_gap (marked.waits v) spaces, ← List.append_assoc,
      reach_after spaces' marked.closes (takesPart.later v), List.foldlM_cons]
    cases k.next v a with
    | none => rfl
    | some v' =>
      show reach r ⟨k.stack v', .separator⟩ (closing :: rest) = _
      rw [reach_cons, marked.ends v']
      rfl
  | @more before part after body parts spaces spaces' _ ih =>
    obtain ⟨a, as, takesPart, others, rfl⟩ := List.forall₂_cons_right_iff.mp takes
    have comma : IsClosing (byte ',') := .inl rfl
    rw [List.append_assoc, List.append_assoc, List.append_assoc, reach_gap (marked.waits v) spaces,
      ← List.append_assoc, List.cons_append, reach_after spaces' comma (takesPart.later v),
      List.foldlM_cons]
    cases k.next v a with
    | none => rfl
    | some v' =>
      show reach r ⟨k.stack v', .separator⟩ (byte ',' :: (body ++ closing :: rest)) = _
      rw [reach_cons_of_step (marked.comma v'), ih others v']
      rfl

/-- The first part of a row is taken where the bracket has been opened, as it would be after a comma. -/
theorem reach_opened {body : Bytes} (marked : k.Marked r closing) (row : IsRow parts body)
    (takes : List.Forall₂ (k.TakesPart r) as parts) (rest : Bytes) :
    reach r ⟨k.stack k.init, .opened⟩ (body ++ closing :: rest) =
      reach r ⟨k.stack k.init, k.ready k.init⟩ (body ++ closing :: rest) := by
  cases row with
  | @last before part after spaces spaces' =>
    obtain ⟨a, _, takesPart, -, rfl⟩ := List.forall₂_cons_right_iff.mp takes
    rw [List.append_assoc, List.append_assoc, reach_gap rfl spaces, reach_gap (marked.waits _) spaces,
      ← List.append_assoc, reach_after spaces' marked.closes takesPart.first,
      reach_after spaces' marked.closes (takesPart.later k.init)]
  | @more before part after body parts spaces spaces' _ =>
    obtain ⟨a, _, takesPart, -, rfl⟩ := List.forall₂_cons_right_iff.mp takes
    have comma : IsClosing (byte ',') := .inl rfl
    rw [List.append_assoc, List.append_assoc, List.append_assoc, reach_gap rfl spaces,
      reach_gap (marked.waits _) spaces, ← List.append_assoc, List.cons_append,
      reach_after spaces' comma takesPart.first, reach_after spaces' comma (takesPart.later k.init)]

/-- A bracket takes its parts one after the other and is closed. -/
theorem reach_enclosed {opening : UInt8} {s : Bytes} {m : Machine} (marked : k.Marked r closing)
    (opens : step r m opening = .ok ⟨k.stack k.init, .opened⟩) (enclosed : IsEnclosed opening closing parts s)
    (takes : List.Forall₂ (k.TakesPart r) as parts) (rest : Bytes) :
    reach r m (s ++ rest) = (as.foldlM k.next k.init).bind fun v =>
      (close r (k.stack v)).toOption.bind fun m' => reach r m' rest := by
  cases enclosed with
  | empty spaces =>
    obtain rfl := List.forall₂_nil_right_iff.mp takes
    rw [List.append_assoc, List.cons_append, reach_cons_of_step opens, reach_gap rfl spaces,
      List.singleton_append, reach_cons, marked.empty]
    rfl
  | row row =>
    rw [List.append_assoc, List.cons_append, reach_cons_of_step opens, List.singleton_append,
      reach_opened marked row takes, reach_row marked row takes]

end Bracket

/-! ## Values -/

/-- A shape whose numbers fit 64 bits. -/
def Shape.Fits : Shape → Prop
  | .text | .flag => True
  | .whole range => range.Fits
  | .list item | .map item => item.Fits

/-- A value that is passed over or read for a shape whose numbers fit 64 bits. -/
def Want.Fits : Want → Prop
  | .skip => True
  | .shape s => s.Fits
  | .record => False

/-- The reader once it has a tree, where the tree is what was wanted. -/
def taken? (want : Want) (t : Tree) (stack : List Frame) : Option Machine :=
  match want with
  | .skip => some ⟨stack, .separator⟩
  | .shape s => (s.datum? t).map fun d => deliver d stack
  | .record => none

/-- Wherever a value is due some bytes lead to what a tree is taken for. -/
def Leads (r : Record) (t : Tree) (s : Bytes) : Prop :=
  ∀ stack want afterComma b rest, want.Fits → IsEnding b →
    reach r ⟨stack, .value want afterComma⟩ (s ++ b :: rest) =
      (taken? want t stack).bind fun m => reach r m (b :: rest)

theorem IsEnclosed.exists_cons {opening closing : UInt8} {parts : List Bytes} {s : Bytes}
    (h : IsEnclosed opening closing parts s) : ∃ u, s = opening :: u := by
  cases h with
  | empty => exact ⟨_, rfl⟩
  | row => exact ⟨_, rfl⟩

/-- The first byte of a value is neither a space nor the end of a list. -/
theorem IsText.exists_cons {t : Tree} {s : Bytes} (h : IsText t s) :
    ∃ b u, s = b :: u ∧ isSpace b = false ∧ b ≠ byte ']' := by
  cases h with
  | null => exact ⟨_, _, rfl, rfl, by decide⟩
  | @flag b =>
    cases b with
    | true => exact ⟨_, _, rfl, rfl, by decide⟩
    | false => exact ⟨_, _, rfl, rfl, by decide⟩
  | number number =>
    obtain @⟨sign, ds, fraction, exponent, isSign, isWhole, -, -⟩ := number
    rcases isSign with rfl | rfl
    · obtain ⟨d, ds, rfl⟩ := List.exists_cons_of_ne_nil isWhole.1.1
      have digit : isDigit d = true := isWhole.1.2 d List.mem_cons_self
      exact ⟨d, _, rfl, isSpace_of_isDigit digit, ne_of_isDigit digit rfl⟩
    · exact ⟨_, _, rfl, rfl, by decide⟩
  | string quoted =>
    obtain ⟨_⟩ := quoted
    exact ⟨_, _, rfl, rfl, by decide⟩
  | list enclosed =>
    obtain ⟨u, rfl⟩ := enclosed.exists_cons
    exact ⟨_, u, rfl, rfl, by decide⟩
  | object enclosed =>
    obtain ⟨u, rfl⟩ := enclosed.exists_cons
    exact ⟨_, u, rfl, rfl, by decide⟩

/-! ### Scalars -/

section Scalars

variable {r : Record} {stack : List Frame} {t : Tree} {s : Bytes}

/-- A scalar is taken for what it means. -/
theorem takeScalar_eq_taken {want : Want} {scalar : Scalar} (fits : want.Fits)
    (means : ∀ shape : Shape, shape.Fits → (shape.accept scalar).toOption = shape.datum? t) :
    (takeScalar r stack want scalar).toOption = taken? want t stack := by
  cases want with
  | skip => rfl
  | record => cases fits
  | shape shape =>
    simp only [takeScalar, taken?, ← means shape fits]
    cases shape.accept scalar with
    | ok d => rfl
    | error stop => rfl

theorem accept_null (shape : Shape) : (shape.accept .null).toOption = shape.datum? .null := by
  cases shape <;> rfl

theorem accept_flag (shape : Shape) (b : Bool) :
    (shape.accept (.flag b)).toOption = shape.datum? (.flag b) := by
  cases shape <;> rfl

theorem accept_literal {shape : Shape} (fits : shape.Fits) (h : IsNumber s) :
    (shape.accept (.number s)).toOption = shape.datum? (.number s) := by
  cases shape with
  | whole range => exact accept_number fits h
  | text | flag | list | map =>
    -- whether or not the number is in the range of doubles, it is no datum of these
    simp only [Shape.accept, Scalar.found]
    cases Number.ofLiteral (Literal.ofBytes s) with
    | ok n => rfl
    | error back => rfl

theorem accept_text {ps : List Piece} {text : String} (h : text? ps = some text) (shape : Shape) :
    (shape.accept (.text text)).toOption = shape.datum? (.string ps) := by
  cases shape with
  | text => simp only [Shape.accept, Scalar.found, Shape.datum?, h, Except.toOption, Option.map_some]
  | flag | whole | list | map => rfl

/-- A string that says no text is no datum. -/
theorem datum?_of_text?_eq_none {ps : List Piece} (h : text? ps = none) (shape : Shape) :
    shape.datum? (.string ps) = none := by
  cases shape with
  | text => simp only [Shape.datum?, h, Option.map_none]
  | flag | whole | list | map => rfl

theorem leads_string {ps : List Piece} (h : IsQuoted ps s) : Leads r (.string ps) s := by
  intro stack want afterComma b rest fits ends
  obtain ⟨spelling⟩ := h
  have opens : step r ⟨stack, .value want afterComma⟩ (byte '"') =
      .ok ⟨stack, .string false want [] .none⟩ := rfl
  rw [List.append_assoc, List.cons_append, reach_cons_of_step opens, List.singleton_append]
  cases want with
  | record => cases fits
  | skip => exact reach_skipped spelling _
  | shape shape =>
    rw [reach_quoted rfl spelling]
    cases text : text? ps with
    | none =>
      rw [taken?, datum?_of_text?_eq_none text]
      rfl
    | some text' =>
      rw [Option.bind_some, textTaken, if_neg Bool.false_ne_true,
        takeScalar_eq_taken fits fun shape _ => accept_text text shape]

end Scalars

/-! ### Lists -/

/-- A list that is passed over. -/
def Bracket.skippedList (stack : List Frame) : Bracket Unit Tree where
  init := ()
  stack := fun _ => .skippedList :: stack
  ready := fun _ => .value .skip true
  next := fun _ _ => some ()

/-- A list of items of one shape, those read so far in reverse. -/
def Bracket.list (item : Shape) (stack : List Frame) : Bracket (List Datum) Tree where
  init := []
  stack := fun got => .list item got :: stack
  ready := fun _ => .value (.shape item) true
  next := fun got t => (item.datum? t).map fun d => d :: got

section Lists

variable {σ : Type} {r : Record} {t : Tree} {s : Bytes}

/-- An item is taken for what is wanted in its place. -/
theorem reach_item {k : Bracket σ Tree} {v : σ} {phase : Phase} (text : IsText t s) (leads : Leads r t s)
    (fits : (itemWant r (k.stack v)).Fits)
    (taken : taken? (itemWant r (k.stack v)) t (k.stack v) =
      (k.next v t).map fun v' => ⟨k.stack v', .separator⟩)
    (here : inList (k.stack v) = true ∧ phase = .opened ∨ phase = .value (itemWant r (k.stack v)) true)
    (b : UInt8) (rest : Bytes) (ends : IsEnding b) :
    reach r ⟨k.stack v, phase⟩ (s ++ b :: rest) =
      (k.next v t).bind fun v' => reach r ⟨k.stack v', .separator⟩ (b :: rest) := by
  have result (afterComma : Bool) :
      reach r ⟨k.stack v, .value (itemWant r (k.stack v)) afterComma⟩ (s ++ b :: rest) =
        (k.next v t).bind fun v' => reach r ⟨k.stack v', .separator⟩ (b :: rest) := by
    rw [leads _ _ _ _ _ fits ends, taken, Option.bind_map]
    rfl
  rcases here with ⟨list, rfl⟩ | rfl
  · rw [← result false]
    obtain ⟨c, u, rfl, visible, more⟩ := text.exists_cons
    rw [List.cons_append, reach_cons, reach_cons, step_opened list visible more]
  · exact result true

theorem takesPart_skippedList {stack : List Frame} (text : IsText t s) (leads : Leads r t s) :
    (Bracket.skippedList stack).TakesPart r t s where
  first := reach_item (k := Bracket.skippedList stack) (v := ()) text leads trivial rfl (.inl ⟨rfl, rfl⟩)
  later _ := reach_item (k := Bracket.skippedList stack) (v := ()) text leads trivial rfl (.inr rfl)

theorem marked_skippedList (r : Record) (stack : List Frame) :
    (Bracket.skippedList stack).Marked r (byte ']') where
  closes := .inr (.inl rfl)
  waits _ := rfl
  comma _ := rfl
  ends _ := rfl
  empty := rfl

theorem takesPart_list {item : Shape} {stack : List Frame} (fits : item.Fits) (text : IsText t s)
    (leads : Leads r t s) : (Bracket.list item stack).TakesPart r t s := by
  have taken (got : List Datum) : taken? (.shape item) t (.list item got :: stack) =
      ((item.datum? t).map fun d => d :: got).map fun got' => ⟨.list item got' :: stack, .separator⟩ := by
    rw [Option.map_map]
    rfl
  exact {
    first := reach_item text leads fits (taken []) (.inl ⟨rfl, rfl⟩)
    later := fun got => reach_item text leads fits (taken got) (.inr rfl) }

theorem marked_list (r : Record) (item : Shape) (stack : List Frame) :
    (Bracket.list item stack).Marked r (byte ']') where
  closes := .inr (.inl rfl)
  waits _ := rfl
  comma _ := rfl
  ends _ := rfl
  empty := rfl

end Lists

/-! ### Objects -/

/-- An object that is passed over. -/
def Bracket.skippedObject (stack : List Frame) : Bracket Unit (List Piece × Tree) where
  init := ()
  stack := fun _ => .skippedObject :: stack
  ready := fun _ => .key
  next := fun _ _ => some ()

/-- A map with values of one shape: the entries so far in reverse, and the key last read. -/
def Bracket.map (item : Shape) (stack : List Frame) :
    Bracket (List (String × Datum) × String) (List Piece × Tree) where
  init := ([], "")
  stack := fun v => .map item v.1 v.2 :: stack
  ready := fun _ => .key
  next := fun v m => (named? m.1 (item.datum? m.2)).map fun e => (e :: v.1, e.1)

section Objects

variable {σ : Type} {r : Record} {stack : List Frame} {want : Want} {s : Bytes}

/-- A colon leads to the value behind it. -/
theorem reach_colon {before after : Bytes} (spaces : IsGap before) (spaces' : IsGap after) (s : Bytes) :
    reach r ⟨stack, .colon want⟩ (before ++ byte ':' :: (after ++ s)) =
      reach r ⟨stack, .value want false⟩ s := by
  have colon : step r ⟨stack, .colon want⟩ (byte ':') = .ok ⟨stack, .value want false⟩ := rfl
  rw [reach_gap rfl spaces, reach_cons_of_step colon, reach_gap rfl spaces']

/-- A key leads to what the innermost object makes of it. -/
theorem reach_key {ps : List Piece} {phase : Phase} (quoted : IsQuoted ps s)
    (opens : step r ⟨stack, phase⟩ (byte '"') = .ok (openKey stack)) (kept : inSkipped stack = false)
    (rest : Bytes) : reach r ⟨stack, phase⟩ (s ++ rest) =
      (text? ps).bind fun name => reach r (takeKey r stack name) rest := by
  obtain ⟨spelling⟩ := quoted
  have opened : openKey stack = ⟨stack, .string true .record [] .none⟩ := by
    simp only [openKey, kept, Bool.false_eq_true, if_false]
  rw [List.append_assoc, List.cons_append, reach_cons_of_step opens, opened, List.singleton_append,
    reach_quoted rfl spelling]
  rfl

theorem reach_skippedKey {ps : List Piece} {phase : Phase} (quoted : IsQuoted ps s)
    (opens : step r ⟨stack, phase⟩ (byte '"') = .ok (openKey stack)) (skipped : inSkipped stack = true)
    (rest : Bytes) : reach r ⟨stack, phase⟩ (s ++ rest) = reach r ⟨stack, .colon .skip⟩ rest := by
  obtain ⟨spelling⟩ := quoted
  have opened : openKey stack = ⟨stack, .string true .skip [] .none⟩ := by
    simp only [openKey, skipped, if_true]
  rw [List.append_assoc, List.cons_append, reach_cons_of_step opens, opened, List.singleton_append,
    reach_skipped spelling]
  rfl

/-- What a member with a name does to an object: its value is taken for what the name asks for, or the name
stops the reader. -/
def NextOfKey (r : Record) (k : Bracket σ (List Piece × Tree)) (v : σ) (m : List Piece × Tree)
    (name : String) : Prop :=
  (∃ stack want, takeKey r (k.stack v) name = ⟨stack, .colon want⟩ ∧ want.Fits ∧
    taken? want m.2 stack = (k.next v m).map fun v' => ⟨k.stack v', .separator⟩) ∨
  ∃ cause, takeKey r (k.stack v) name = ⟨k.stack v, .doomed cause⟩ ∧ k.next v m = none

/-- A member is taken by an object that evaluates its keys. -/
theorem takesPart_member {k : Bracket σ (List Piece × Tree)} {e : Entry} {part : Bytes}
    (member : IsMember (e.keyText, e.valueText) part) (quoted : IsQuoted e.key e.keyText)
    (leads : Leads r e.value e.valueText) (object : ∀ v, inList (k.stack v) = false)
    (kept : ∀ v, inSkipped (k.stack v) = false) (ready : ∀ v, k.ready v = .key)
    (unnamed : ∀ v, text? e.key = none → k.next v (e.key, e.value) = none)
    (named : ∀ v name, text? e.key = some name → NextOfKey r k v (e.key, e.value) name) :
    k.TakesPart r (e.key, e.value) part := by
  have result {v : σ} {phase : Phase}
      (opens : step r ⟨k.stack v, phase⟩ (byte '"') = .ok (openKey (k.stack v))) (b : UInt8)
      (rest : Bytes) (ends : IsEnding b) : reach r ⟨k.stack v, phase⟩ (part ++ b :: rest) =
        (k.next v (e.key, e.value)).bind fun v' => reach r ⟨k.stack v', .separator⟩ (b :: rest) := by
    obtain @⟨_, before, after, _, spaces, spaces'⟩ := member
    rw [List.append_assoc, List.append_assoc, reach_key quoted opens (kept v), List.cons_append,
      List.append_assoc]
    cases text : text? e.key with
    | none =>
      rw [unnamed v text]
      rfl
    | some name =>
      rw [Option.bind_some]
      rcases named v name text with ⟨stack, want, key, fits, taken⟩ | ⟨cause, key, stops⟩
      · rw [key, reach_colon spaces spaces', leads _ _ _ _ _ fits ends, taken, Option.bind_map]
        rfl
      · have stop : step r ⟨k.stack v, .doomed cause⟩ (byte ':') = stopBefore cause := rfl
        rw [key, reach_gap rfl spaces, reach_cons_of_stop stop, stops]
        rfl
  refine { first := result ?_, later := fun v => ?_ }
  · simp only [step, stepOpened, object, Bool.false_eq_true, if_false]
    rfl
  · rw [ready v]
    exact result rfl

theorem takesPart_skippedObject {e : Entry} {part : Bytes}
    (member : IsMember (e.keyText, e.valueText) part) (quoted : IsQuoted e.key e.keyText)
    (leads : Leads r e.value e.valueText) :
    (Bracket.skippedObject stack).TakesPart r (e.key, e.value) part := by
  have result {phase : Phase}
      (opens : step r ⟨.skippedObject :: stack, phase⟩ (byte '"') = .ok (openKey (.skippedObject :: stack)))
      (b : UInt8) (rest : Bytes) (ends : IsEnding b) :
      reach r ⟨.skippedObject :: stack, phase⟩ (part ++ b :: rest) =
        reach r ⟨.skippedObject :: stack, .separator⟩ (b :: rest) := by
    obtain @⟨_, before, after, _, spaces, spaces'⟩ := member
    rw [List.append_assoc, List.append_assoc, reach_skippedKey quoted opens rfl, List.cons_append,
      List.append_assoc, reach_colon spaces spaces', leads _ .skip _ _ _ trivial ends]
    rfl
  exact { first := result rfl, later := fun _ => result rfl }

theorem marked_skippedObject (r : Record) (stack : List Frame) :
    (Bracket.skippedObject stack).Marked r (byte '\x7d') where
  closes := .inr (.inr rfl)
  waits _ := rfl
  comma _ := rfl
  ends _ := rfl
  empty := rfl

theorem takesPart_map {item : Shape} {e : Entry} {part : Bytes} (fits : item.Fits)
    (member : IsMember (e.keyText, e.valueText) part) (quoted : IsQuoted e.key e.keyText)
    (leads : Leads r e.value e.valueText) :
    (Bracket.map item stack).TakesPart r (e.key, e.value) part := by
  refine takesPart_member member quoted leads (fun _ => rfl) (fun _ => rfl) (fun _ => rfl) ?_ ?_
  · intro v text
    simp only [Bracket.map, named?, text, Option.bind_none, Option.map_none]
  · intro v name text
    refine .inl ⟨.map item v.1 name :: stack, .shape item, rfl, fits, ?_⟩
    simp only [Bracket.map, named?, text, taken?, Option.bind_some, Option.map_map]
    rfl

theorem marked_map (r : Record) (item : Shape) (stack : List Frame) :
    (Bracket.map item stack).Marked r (byte '\x7d') where
  closes := .inr (.inr rfl)
  waits _ := rfl
  comma _ := rfl
  ends _ := rfl
  empty := rfl

end Objects

/-! ### Trees -/

section Collected

variable {σ α β γ : Type} {f : α → Option β} {p : σ → β → σ} {g : σ → List β} {v : σ}

/-- Values that are collected in reverse, part by part. -/
theorem foldlM_collect (pushed : ∀ v b, g (p v b) = b :: g v) (as : List α) (v : σ) :
    (as.foldlM (fun v a => (f a).map (p v)) v).map g =
      (as.mapM f).map fun bs => bs.reverse ++ g v := by
  induction as generalizing v with
  | nil => rfl
  | cons a as ih =>
    rw [List.foldlM_cons, List.mapM_cons]
    cases f a with
    | none => rfl
    | some b =>
      refine (ih (p v b)).trans ?_
      rw [pushed]
      cases as.mapM f with
      | none => rfl
      | some bs => simp

/-- Once all parts are there, what has been collected is the value of each of them. -/
theorem bind_collect (pushed : ∀ v b, g (p v b) = b :: g v) (none_yet : g v = [])
    (as : List α) (F : List β → Option γ) :
    ((as.foldlM (fun v a => (f a).map (p v)) v).bind fun v' => F (g v').reverse) =
      (as.mapM f).bind F := by
  have collected := foldlM_collect (f := f) pushed as v
  rw [none_yet] at collected
  calc ((as.foldlM (fun v a => (f a).map (p v)) v).bind fun v' => F (g v').reverse)
      = ((as.foldlM (fun v a => (f a).map (p v)) v).map g).bind fun bs => F bs.reverse := by
        rw [Option.bind_map]
        rfl
    _ = (as.mapM f).bind F := by
        rw [collected, Option.bind_map]
        congr 1
        funext bs
        simp

/-- Nothing is made of parts that are passed over. -/
theorem foldlM_skip (as : List α) : as.foldlM (fun _ _ => some ()) () = some () := by
  induction as with
  | nil => rfl
  | cons a as ih => exact ih

end Collected

section Trees

variable {r : Record}

/-- The members of an object are taken if each of them is. -/
theorem forall₂_takesPart {σ : Type} {k : Bracket σ (List Piece × Tree)} {entries : List Entry}
    {parts : List Bytes}
    (members : List.Forall₂ (fun e part => IsMember (e.keyText, e.valueText) part) entries parts)
    (keys : ∀ e ∈ entries, IsQuoted e.key e.keyText)
    (leads : ∀ e ∈ entries, Leads r e.value e.valueText)
    (takes : ∀ (e : Entry) part, IsMember (e.keyText, e.valueText) part → IsQuoted e.key e.keyText →
      Leads r e.value e.valueText → k.TakesPart r (e.key, e.value) part) :
    List.Forall₂ (k.TakesPart r) (entries.map fun e => (e.key, e.value)) parts := by
  rw [List.forall₂_map_left_iff]
  induction members with
  | nil => exact .nil
  | cons member _ ih =>
    obtain ⟨key, keys⟩ := List.forall_mem_cons.mp keys
    obtain ⟨first, leads⟩ := List.forall_mem_cons.mp leads
    exact .cons (takes _ _ member key first) (ih keys leads)

theorem leads_list {items : List (Tree × Bytes)} {s : Bytes}
    (enclosed : IsEnclosed (byte '[') (byte ']') (items.map Prod.snd) s)
    (texts : ∀ i ∈ items, IsText i.1 i.2) (leads : ∀ i ∈ items, Leads r i.1 i.2) :
    Leads r (.list (items.map Prod.fst)) s := by
  intro stack want afterComma b rest fits ends
  have parts {σ : Type} {k : Bracket σ Tree} (takes : ∀ i ∈ items, k.TakesPart r i.1 i.2) :
      List.Forall₂ (k.TakesPart r) (items.map Prod.fst) (items.map Prod.snd) := by
    rw [List.forall₂_map_left_iff, List.forall₂_map_right_iff, List.forall₂_same]
    exact takes
  cases want with
  | record => cases fits
  | skip =>
    rw [Bracket.reach_enclosed (marked_skippedList r stack) rfl enclosed
      (parts fun i member => takesPart_skippedList (texts i member) (leads i member))]
    show ((items.map Prod.fst).foldlM (fun _ _ => some ()) ()).bind _ = _
    rw [foldlM_skip]
    rfl
  | shape shape =>
    cases shape with
    | list item =>
      rw [Bracket.reach_enclosed (marked_list r item stack) rfl enclosed
        (parts fun i member => takesPart_list fits (texts i member) (leads i member))]
      refine (bind_collect (g := id) (fun _ _ => rfl) rfl (items.map Prod.fst) fun ds =>
        reach r (deliver (.list ds) stack) (b :: rest)).trans ?_
      simp only [taken?, Shape.datum?, Option.map_map, Option.bind_map]
      rfl
    | text | flag | whole | map =>
      obtain ⟨u, rfl⟩ := enclosed.exists_cons
      exact reach_cons_of_stop rfl _

theorem leads_object {entries : List Entry} {parts : List Bytes} {s : Bytes}
    (enclosed : IsEnclosed (byte '\x7b') (byte '\x7d') parts s)
    (members : List.Forall₂ (fun e part => IsMember (e.keyText, e.valueText) part) entries parts)
    (keys : ∀ e ∈ entries, IsQuoted e.key e.keyText)
    (leads : ∀ e ∈ entries, Leads r e.value e.valueText) :
    Leads r (.object (entries.map fun e => (e.key, e.value))) s := by
  intro stack want afterComma b rest fits ends
  cases want with
  | record => cases fits
  | skip =>
    rw [Bracket.reach_enclosed (marked_skippedObject r stack) rfl enclosed
      (forall₂_takesPart members keys leads fun _ _ => takesPart_skippedObject)]
    show ((entries.map fun e => (e.key, e.value)).foldlM (fun _ _ => some ()) ()).bind _ = _
    rw [foldlM_skip]
    rfl
  | shape shape =>
    cases shape with
    | map item =>
      rw [Bracket.reach_enclosed (marked_map r item stack) rfl enclosed
        (forall₂_takesPart members keys leads fun _ _ => takesPart_map fits)]
      refine (bind_collect (p := fun v e => (e :: v.1, e.1)) (g := Prod.fst) (v := ([], "")) (fun _ _ => rfl)
        rfl (entries.map fun e => (e.key, e.value)) fun es =>
          reach r (deliver (.map es) stack) (b :: rest)).trans ?_
      simp only [taken?, Shape.datum?, Option.map_map, Option.bind_map]
      rfl
    | text | flag | whole | list =>
      obtain ⟨u, rfl⟩ := enclosed.exists_cons
      exact reach_cons_of_stop rfl _

end Trees

/-- The text of a tree leads to where the tree has been taken for what was wanted. -/
theorem IsText.leads {t : Tree} {s : Bytes} (r : Record) (h : IsText t s) : Leads r t s := by
  induction h with
  | null =>
    intro stack want afterComma b rest fits ends
    rw [reach_null, takeScalar_eq_taken fits fun shape _ => accept_null shape]
  | flag =>
    intro stack want afterComma b rest fits ends
    rw [reach_flag, takeScalar_eq_taken fits fun shape _ => accept_flag shape _]
  | number number =>
    intro stack want afterComma b rest fits ends
    rw [reach_number number ends, takeScalar_eq_taken fits fun shape fits => accept_literal fits number]
  | string quoted => exact leads_string quoted
  | list enclosed texts ih => exact leads_list enclosed texts ih
  | object enclosed members keys texts ih => exact leads_object enclosed members keys ih

end GuideRig.Json
