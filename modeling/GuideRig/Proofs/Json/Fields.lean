/-
# GuideRig.Proofs.Json.Fields -- a record is read by looking its fields up

The reader meets the members of an object one after the other and keeps what it has been given for each
field, but what comes of it could be had by looking up each field by its name (`Record.read_object`). The
list form comes to the same as giving each field in its place (`Record.read_list`). Both are equations: where
the fields cannot be had the document is not read.
-/

import GuideRig.Proofs.Json.Reading
import GuideRig.Proofs.Json.Record

namespace GuideRig.Json

open Ascii Machine

/-! ## What a field holds -/

/-- What a field holds once it has been given some values, if it held something or nothing before. -/
def Field.slot? (f : Field) : Option Datum → List Tree → Option (Option Datum)
  | held, [] => some held
  | none, [t] => (f.shape.datum? t).map some
  | none, _ :: _ :: _ => none
  | some _, _ :: _ => none

theorem Field.slot?_none_cons (f : Field) (t : Tree) (ts : List Tree) :
    f.slot? none (t :: ts) = (f.shape.datum? t).bind fun d => f.slot? (some d) ts := by
  cases ts with
  | nil =>
    rw [slot?]
    cases f.shape.datum? t <;> rfl
  | cons t' ts => simp only [slot?, Option.bind_fun_none]

/-- A field that held nothing has what it has been given, or else its default. -/
theorem Field.bind_slot? (f : Field) (ts : List Tree) :
    ((f.slot? none ts).bind fun held => held.or f.default) = f.datum? ts := by
  match ts with
  | [] => rfl
  | [t] =>
    rw [slot?, datum?, Option.bind_map]
    cases f.shape.datum? t <;> rfl
  | _ :: _ :: _ => rfl

/-- What the fields of a record hold once some members have been read. -/
def slots? (members : List (List Piece × Tree)) (fields : List Field) (got : List (Option Datum)) :
    Option (List (Option Datum)) :=
  (fields.zip got).mapM fun p => p.1.slot? p.2 (given members p.1.name)

section Slots

variable {m : List Piece × Tree} {members : List (List Piece × Tree)} {fields : List Field}
  {got : List (Option Datum)}

theorem slots?_nil (size : got.length = fields.length) : slots? [] fields got = some got := by
  induction fields generalizing got with
  | nil =>
    rw [List.length_nil, List.length_eq_zero_iff] at size
    rw [size]
    rfl
  | cons f fields ih =>
    cases got with
    | nil => cases size
    | cons held got =>
      have later := ih (Nat.succ.inj size)
      rw [slots?] at later
      rw [slots?, List.zip_cons_cons, List.mapM_cons, later]
      rfl

/-- A member that none of the fields is named for. -/
theorem slots?_cons_of_unknown (h : ∀ f ∈ fields, text? m.1 ≠ some f.name) :
    slots? (m :: members) fields got = slots? members fields got := by
  apply mapM_congr
  intro p member
  rw [given_cons, if_neg (h p.1 (List.of_mem_zip member).1)]

/-- A list around one of its places, and what it becomes if another item is put there. -/
theorem exists_split {α : Type} {l : List α} {i : Nat} (h : i < l.length) :
    ∃ before after, before.length = i ∧ l = before ++ l[i] :: after ∧
      ∀ a, l.set i a = before ++ a :: after := by
  refine ⟨l.take i, l.drop (i + 1), List.length_take_of_le h.le, ?_, ?_⟩
  · rw [← List.drop_eq_getElem_cons h, List.take_append_drop]
  · intro a
    rw [List.set_eq_take_append_cons_drop, if_pos h]

/-- A member that one of the fields is named for gives it its value. -/
theorem slots?_cons_of_known {i : Nat} (inside : i < fields.length) (inside' : i < got.length)
    (named : text? m.1 = some fields[i].name) (distinct : (fields.map Field.name).Nodup) :
    slots? (m :: members) fields got =
      match got[i] with
      | some _ => none
      | none => (fields[i].shape.datum? m.2).bind fun d => slots? members fields (got.set i (some d)) := by
  obtain ⟨before, after, before_size, form, -⟩ := exists_split inside
  obtain ⟨front, back, front_size, held, set⟩ := exists_split inside'
  generalize fields[i] = f at form named
  generalize got[i] = slot at held
  obtain rfl := form
  obtain rfl := held
  have size : before.length = front.length := before_size.trans front_size.symm
  have others : ∀ g ∈ before ++ after, text? m.1 ≠ some g.name := by
    intro g member same
    exact name_ne distinct member (Option.some.inj (same.symm.trans named))
  have front_same : slots? (m :: members) before front = slots? members before front :=
    slots?_cons_of_unknown fun g member => others g (List.mem_append_left after member)
  have back_same : slots? (m :: members) after back = slots? members after back :=
    slots?_cons_of_unknown fun g member => others g (List.mem_append_right before member)
  have split (ms : List (List Piece × Tree)) (held : Option Datum) :
      slots? ms (before ++ f :: after) (front ++ held :: back) =
        (slots? ms before front).bind fun fs => (f.slot? held (given ms f.name)).bind fun s =>
          (slots? ms after back).bind fun bs => some (fs ++ s :: bs) := by
    rw [slots?, List.zip_append size, List.zip_cons_cons, List.mapM_append, List.mapM_cons]
    simp only [Option.bind_eq_bind, Option.pure_def, Option.bind_assoc, Option.bind_some, slots?]
  rw [split, front_same, back_same, given_cons, if_pos named]
  cases slot with
  | some d => simp only [Field.slot?, Option.bind_none, Option.bind_fun_none]
  | none =>
    rw [Field.slot?_none_cons]
    cases f.shape.datum? m.2 with
    | none => simp only [Option.bind_none, Option.bind_fun_none]
    | some d => rw [Option.bind_some, Option.bind_some, set, split]

/-- Fields that held nothing are complete when each has what it has been given, or else its default. -/
theorem bind_slots? (members : List (List Piece × Tree)) (fields : List Field) :
    ((slots? members fields (fields.map fun _ => none)).bind fun got => (complete fields got).toOption) =
      fields.mapM fun f => f.datum? (given members f.name) := by
  induction fields with
  | nil => rfl
  | cons f fields ih =>
    rw [List.mapM_cons, ← ih, ← f.bind_slot?, slots?, List.map_cons, List.zip_cons_cons, List.mapM_cons]
    cases f.slot? none (given members f.name) with
    | none => rfl
    | some held =>
      show ((slots? members fields (fields.map fun _ => none)).bind fun got => some (held :: got)).bind _ =
        (held.or f.default).bind fun d => _
      cases slots? members fields (fields.map fun _ => none) with
      | none => simp only [Option.bind_eq_bind, Option.bind_none, Option.bind_fun_none]
      | some got =>
        show (complete (f :: fields) (held :: got)).toOption = _
        simp only [complete, List.head?_cons, Option.join_some, List.tail_cons]
        cases held.or f.default with
        | none => rfl
        | some d =>
          simp only [Option.bind_some]
          cases complete fields got <;> rfl

end Slots

/-! ## The object form -/

/-- The record's object form: what each field holds, and the place of the field last named. -/
def Bracket.record (r : Record) (stack : List Frame) :
    Bracket (List (Option Datum) × Option Nat) (List Piece × Tree) where
  init := (r.fields.map fun _ => none, none)
  stack := fun v => .record v.1 v.2 :: stack
  ready := fun _ => .key
  next := fun v m => (text? m.1).bind fun name =>
    match r.fields.findIdx? fun f => f.name == name with
    | none => some (v.1, none)
    | some i =>
      match v.1[i]?.join, r.fields[i]? with
      | none, some f => (f.shape.datum? m.2).map fun d => (v.1.set i (some d), some i)
      | _, _ => none

section Objects

variable {r : Record} {stack : List Frame}

theorem takesPart_record {e : Entry} {part : Bytes} (fits : ∀ f ∈ r.fields, f.shape.Fits)
    (member : IsMember (e.keyText, e.valueText) part) (quoted : IsQuoted e.key e.keyText)
    (leads : Leads r e.value e.valueText) :
    (Bracket.record r stack).TakesPart r (e.key, e.value) part := by
  refine takesPart_member member quoted leads (fun _ => rfl) (fun _ => rfl) (fun _ => rfl) ?_ ?_
  · intro v text
    simp only [Bracket.record, text, Option.bind_none]
  · intro v name text
    simp only [NextOfKey, Bracket.record, text, Option.bind_some, takeKey]
    cases r.fields.findIdx? fun f => f.name == name with
    | none => exact .inl ⟨_, .skip, rfl, trivial, rfl⟩
    | some i =>
      dsimp only
      cases v.1[i]?.join with
      | some d => exact .inr ⟨_, rfl, rfl⟩
      | none =>
        cases field : r.fields[i]? with
        | none => exact .inr ⟨_, rfl, rfl⟩
        | some f =>
          refine .inl ⟨_, .shape f.shape, rfl, fits f (List.mem_of_getElem? field), ?_⟩
          simp only [taken?, Option.map_map]
          rfl

theorem marked_record (r : Record) (stack : List Frame) :
    (Bracket.record r stack).Marked r (byte '\x7d') where
  closes := .inr (.inr rfl)
  waits _ := rfl
  comma _ := rfl
  ends _ := rfl
  empty := rfl

/-- Whether a member that the record knows is taken depends on what its field holds. -/
theorem next_record {m : List Piece × Tree} {name : String} {i : Nat} {got : List (Option Datum)}
    (inside : i < r.fields.length) (inside' : i < got.length) (named : text? m.1 = some name)
    (place : r.fields.findIdx? (fun f => f.name == name) = some i) (last : Option Nat) :
    (Bracket.record r stack).next (got, last) m =
      match got[i] with
      | some _ => none
      | none => (r.fields[i].shape.datum? m.2).map fun d => (got.set i (some d), some i) := by
  have field : r.fields[i]? = some r.fields[i] := List.getElem?_eq_getElem inside
  have slot : got[i]?.join = got[i] := by rw [List.getElem?_eq_getElem inside', Option.join_some]
  simp only [Bracket.record, named, Option.bind_some, place, slot, field]
  cases got[i] <;> rfl

/-- Members that are read one after the other leave each field with what it has been given. -/
theorem foldlM_record (distinct : (r.fields.map Field.name).Nodup) (members : List (List Piece × Tree))
    {got : List (Option Datum)} (size : got.length = r.fields.length) (last : Option Nat) :
    (members.foldlM (Bracket.record r stack).next (got, last)).map Prod.fst =
      if ∀ m ∈ members, (text? m.1).isSome then slots? members r.fields got else none := by
  -- on the members: the first of them changes what one field holds, or nothing
  induction members generalizing got last with
  | nil =>
    rw [if_pos (by simp), slots?_nil size]
    rfl
  | cons m members ih =>
    rw [List.foldlM_cons]
    cases named : text? m.1 with
    | none =>
      have stops : (Bracket.record r stack).next (got, last) m = none := by
        simp only [Bracket.record, named, Option.bind_none]
      rw [if_neg (by simp [named]), stops]
      rfl
    | some name =>
      simp only [List.forall_mem_cons, named, Option.isSome_some, true_and]
      cases place : r.fields.findIdx? fun f => f.name == name with
      | none =>
        have unknown : ∀ f ∈ r.fields, text? m.1 ≠ some f.name := by
          intro f field same
          have other := List.findIdx?_eq_none_iff.mp place f field
          rw [named, Option.some.injEq] at same
          simp [same] at other
        have passes : (Bracket.record r stack).next (got, last) m = some (got, none) := by
          simp only [Bracket.record, named, Option.bind_some, place]
        rw [passes, slots?_cons_of_unknown unknown]
        exact ih size none
      | some i =>
        obtain ⟨inside, isName, -⟩ := List.findIdx?_eq_some_iff_getElem.mp place
        have inside' : i < got.length := size ▸ inside
        have isField : text? m.1 = some r.fields[i].name := by rw [named, beq_iff_eq.mp isName]
        rw [next_record inside inside' named place, slots?_cons_of_known inside inside' isField distinct]
        have stops : (none : Option (List (Option Datum))) =
            if ∀ m ∈ members, (text? m.1).isSome then none else none := (ite_self none).symm
        cases got[i] with
        | some d => exact stops
        | none =>
          dsimp only
          cases r.fields[i].shape.datum? m.2 with
          | none => exact stops
          | some d => exact ih (by rw [List.length_set, size]) (some i)

/-- An object leads to the end of a record when the fields of the record can be looked up in it. -/
theorem reach_object {text : Bytes} {members : List (List Piece × Tree)}
    (fits : ∀ f ∈ r.fields, f.shape.Fits) (distinct : (r.fields.map Field.name).Nodup)
    (h : IsText (.object members) text) (rest : Bytes) :
    reach r start (text ++ rest) =
      (r.ofMembers? members).bind fun ds => reach r ⟨[], .ended ds⟩ rest := by
  cases h with
  | @object entries parts _ enclosed isMembers keys texts =>
    generalize form : (entries.map fun e => (e.key, e.value)) = members
    have opens : step r start (byte '\x7b') =
        .ok ⟨(Bracket.record r []).stack (Bracket.record r []).init, .opened⟩ := rfl
    have takes := forall₂_takesPart isMembers keys (fun e member => (texts e member).leads r) fun _ _ =>
      @takesPart_record r [] _ _ fits
    rw [form] at takes
    have closes (v : List (Option Datum) × Option Nat) :
        (close r ((Bracket.record r []).stack v)).toOption.bind (fun m => reach r m rest) =
          (complete r.fields v.1).toOption.bind fun ds => reach r ⟨[], .ended ds⟩ rest := by
      simp only [Bracket.record, close]
      cases complete r.fields v.1 <;> rfl
    have folded := @foldlM_record r [] distinct members (r.fields.map fun _ => none)
      (List.length_map _) none
    rw [Bracket.reach_enclosed (marked_record r []) opens enclosed takes]
    simp only [closes]
    calc _ = (((members.foldlM (Bracket.record r []).next (r.fields.map fun _ => none, none)).map
          Prod.fst).bind fun got => (complete r.fields got).toOption).bind
            fun ds => reach r ⟨[], .ended ds⟩ rest := by
          rw [Option.bind_map, Option.bind_assoc]
          rfl
      _ = _ := by
          rw [folded, Record.ofMembers?]
          split
          · rw [bind_slots?]
          · rfl

end Objects

/-! ## The list form -/

/-- The record's list form: the fields given so far, in reverse. -/
def Bracket.tuple (r : Record) (stack : List Frame) : Bracket (List Datum) Tree where
  init := []
  stack := fun got => .tuple got :: stack
  ready := fun got =>
    if r.fields.length ≤ got.length then .surplus else .value (itemWant r (.tuple got :: stack)) true
  next := fun got t =>
    match r.fields[got.length]? with
    | some f => (f.shape.datum? t).map fun d => d :: got
    | none => none

section Lists

variable {r : Record} {stack : List Frame}

theorem marked_tuple (r : Record) (stack : List Frame) :
    (Bracket.tuple r stack).Marked r (byte ']') where
  closes := .inr (.inl rfl)
  waits got := by
    simp only [Bracket.tuple]
    split <;> rfl
  comma got := by
    have visible : isSpace (byte ',') = false := rfl
    simp only [Bracket.tuple, step, stepSeparator, isFull, visible, decide_eq_true_eq, Bool.false_eq_true,
      if_false]
    split <;> rfl
  ends got := by
    have visible : isSpace (byte ']') = false := rfl
    simp only [Bracket.tuple, step, stepSeparator, isFull, visible, decide_eq_true_eq, Bool.false_eq_true,
      if_false]
    split <;> rfl
  empty := rfl

theorem takesPart_tuple {t : Tree} {s : Bytes} (some_field : r.fields ≠ [])
    (fits : ∀ f ∈ r.fields, f.shape.Fits) (text : IsText t s) :
    (Bracket.tuple r stack).TakesPart r t s := by
  -- an item is read for its field as long as there is one
  have taken {got : List Datum} (more : got.length < r.fields.length) :
      (itemWant r (.tuple got :: stack)).Fits ∧ taken? (itemWant r (.tuple got :: stack)) t
          (.tuple got :: stack) =
        ((Bracket.tuple r stack).next got t).map fun got' => ⟨.tuple got' :: stack, .separator⟩ := by
    have field := List.getElem?_eq_getElem more
    simp only [itemWant, Bracket.tuple, field, taken?, Option.map_map]
    exact ⟨fits _ (List.getElem_mem more), rfl⟩
  have begins : ([] : List Datum).length < r.fields.length := List.length_pos_iff.mpr some_field
  refine { first := ?_, later := ?_ }
  · exact reach_item text (text.leads r) (taken begins).1 (taken begins).2 (.inl ⟨rfl, rfl⟩)
  · intro got b rest ends
    by_cases full : r.fields.length ≤ got.length
    · obtain ⟨c, u, rfl, visible, other⟩ := text.exists_cons
      have stops : step r ⟨.tuple got :: stack, .surplus⟩ c = .error (.trailingCharacters, 0) := by
        simp only [step, visible, if_neg other, Bool.false_eq_true, if_false, stop]
      have none_left : (Bracket.tuple r stack).next got t = none := by
        simp only [Bracket.tuple, List.getElem?_eq_none full]
      have waits : (Bracket.tuple r stack).ready got = .surplus := if_pos full
      rw [waits, none_left]
      exact reach_cons_of_stop stops _
    · have more := Nat.not_le.mp full
      have waits : (Bracket.tuple r stack).ready got = .value (itemWant r (.tuple got :: stack)) true :=
        if_neg full
      exact reach_item text (text.leads r) (taken more).1 (taken more).2 (.inr waits) b rest ends

/-- Fields that are left out at the end have their defaults, if each of them has one. -/
theorem close_tuple (got : List Datum) :
    (close r (.tuple got :: stack)).toOption =
      (ofItems? (r.fields.drop got.length) []).map fun ds => ⟨stack, .ended (got.reverse ++ ds)⟩ := by
  have filled (fs : List Field) :
      ofItems? fs [] =
        (fs.findIdx? fun f => f.default.isNone).elim (some (fs.filterMap Field.default)) fun _ => none := by
    induction fs with
    | nil => rfl
    | cons f fs ih =>
      rw [ofItems?, List.take_nil, List.drop_nil, ih, Field.datum?, List.findIdx?_cons]
      cases default : f.default with
      | none => rfl
      | some d =>
        simp only [Option.isNone_some, Bool.false_eq_true, if_false, Option.bind_some, List.filterMap_cons,
          default]
        cases fs.findIdx? fun f => f.default.isNone <;> rfl
  simp only [close, filled]
  cases (r.fields.drop got.length).findIdx? fun f => f.default.isNone <;> rfl

/-- Items that are read one after the other are the fields in their order. -/
theorem foldlM_tuple (items : List Tree) (got : List Datum) :
    ((items.foldlM (Bracket.tuple r stack).next got).bind fun got' =>
        (close r (.tuple got' :: stack)).toOption) =
      (ofItems? (r.fields.drop got.length) items).map fun ds => ⟨stack, .ended (got.reverse ++ ds)⟩ := by
  induction items generalizing got with
  | nil => exact close_tuple got
  | cons t items ih =>
    rw [List.foldlM_cons]
    by_cases more : got.length < r.fields.length
    · have field := List.getElem?_eq_getElem more
      have next : (Bracket.tuple r stack).next got t =
          (r.fields[got.length].shape.datum? t).map fun d => d :: got := by
        simp only [Bracket.tuple, field]
      rw [next, List.drop_eq_getElem_cons more, ofItems?, List.take_succ_cons, List.take_zero, Field.datum?,
        List.drop_succ_cons, List.drop_zero]
      cases r.fields[got.length].shape.datum? t with
      | none => rfl
      | some d =>
        refine (ih (d :: got)).trans ?_
        simp only [Option.bind_some, List.length_cons, List.reverse_cons, List.append_assoc,
          List.singleton_append, Option.map_map]
        rfl
    · have none_left := Nat.not_lt.mp more
      have next : (Bracket.tuple r stack).next got t = none := by
        simp only [Bracket.tuple, List.getElem?_eq_none none_left]
      rw [next, List.drop_eq_nil_of_le none_left]
      rfl

/-- A list leads to the end of a record when its items are the fields of the record. -/
theorem reach_list {text : Bytes} {items : List Tree} (some_field : r.fields ≠ [])
    (fits : ∀ f ∈ r.fields, f.shape.Fits) (h : IsText (.list items) text) (rest : Bytes) :
    reach r start (text ++ rest) =
      (ofItems? r.fields items).bind fun ds => reach r ⟨[], .ended ds⟩ rest := by
  cases h with
  | @list items _ enclosed texts =>
    have opens : step r start (byte '[') =
        .ok ⟨(Bracket.tuple r []).stack (Bracket.tuple r []).init, .opened⟩ := rfl
    have takes : List.Forall₂ ((Bracket.tuple r []).TakesPart r) (items.map Prod.fst)
        (items.map Prod.snd) := by
      rw [List.forall₂_map_left_iff, List.forall₂_map_right_iff, List.forall₂_same]
      exact fun i member => takesPart_tuple some_field fits (texts i member)
    rw [Bracket.reach_enclosed (marked_tuple r []) opens enclosed takes]
    have folded := @foldlM_tuple r [] (items.map Prod.fst) []
    calc _ = (((items.map Prod.fst).foldlM (Bracket.tuple r []).next []).bind fun got =>
          (close r [.tuple got]).toOption).bind fun m => reach r m rest := by
          rw [Option.bind_assoc]
          rfl
      _ = _ := by
          rw [folded, Option.bind_map]
          rfl

end Lists

/-! ## Documents -/

namespace Record

variable {r : Record} {doc : Bytes}

theorem toOption_read (r : Record) (doc : Bytes) :
    (r.read doc).toOption = (reach r start doc).bind fun m => (m.finish r).toOption := by
  unfold Record.read reach
  cases start.run r doc <;> rfl

/-- Between its spaces a document is read as its value is. -/
theorem toOption_read_of_isDocument {t : Tree} {out : Option (List Datum)} (h : IsDocument t doc)
    (leads : ∀ text rest, IsText t text → reach r start (text ++ rest) =
      out.bind fun ds => reach r ⟨[], .ended ds⟩ rest) : (r.read doc).toOption = out := by
  obtain @⟨before, text, after, spaces, isText, spaces'⟩ := h
  rw [toOption_read, List.append_assoc, start, reach_gap rfl spaces]
  rw [start] at leads
  rw [leads text after isText]
  cases out with
  | none => rfl
  | some ds =>
    have stays : reach r ⟨[], .ended ds⟩ after = some ⟨[], .ended ds⟩ := by
      have gap : reach r ⟨[], .ended ds⟩ (after ++ []) = reach r ⟨[], .ended ds⟩ [] :=
        reach_gap rfl spaces' []
      rw [List.append_nil] at gap
      exact gap
    rw [Option.bind_some, stays]
    rfl

/-- A record is read from an object by looking its fields up. -/
theorem read_object {members : List (List Piece × Tree)} (fits : ∀ f ∈ r.fields, f.shape.Fits)
    (distinct : (r.fields.map Field.name).Nodup) (h : IsDocument (.object members) doc) :
    (r.read doc).toOption = r.ofMembers? members :=
  toOption_read_of_isDocument h fun _ rest isText => reach_object fits distinct isText rest

/-- A record is read from a list by taking its items for the fields in their order. -/
theorem read_list {items : List Tree} (some_field : r.fields ≠ []) (fits : ∀ f ∈ r.fields, f.shape.Fits)
    (h : IsDocument (.list items) doc) : (r.read doc).toOption = ofItems? r.fields items :=
  toOption_read_of_isDocument h fun _ rest isText => reach_list some_field fits isText rest

end Record

end GuideRig.Json
