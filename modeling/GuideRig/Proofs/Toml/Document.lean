/-
# GuideRig.Proofs.Toml.Document -- a document of texts and whole numbers is read entry by entry

A document whose entries are texts and whole numbers is a sequence of lines (`IsDocument`): each has one
entry, or none, and may be indented, spaced around the sign between key and value, and commented. Reading
one line puts its entry at the end of the table (`IsLine.readLines`), and so a document whose names are
distinct is read as the table of its entries, in the order of the lines (`IsWritten.read`).
-/

import GuideRig.Proofs.Toml.Text
import GuideRig.Proofs.Toml.Whole
import GuideRig.Toml.Document

namespace GuideRig.Toml

/-! ## Lines -/

/-- Nothing but blanks. -/
def IsBlanks (s : List Char) : Prop := ∀ c ∈ s, isBlank c = true

/-- A name as a key: without quotes, if its characters allow that, or in quotes. -/
inductive IsKey : String → List Char → Prop
  | bare {name : String} : name.toList ≠ [] → (∀ c ∈ name.toList, inBareKey c = true) →
      IsKey name name.toList
  | quoted {name : String} {w : List Char} : Text.IsQuoted name w → IsKey name w

/-- A text or a whole number. -/
inductive IsValue : Value → List Char → Prop
  | text {s : String} {w : List Char} : Text.IsText s w → IsValue (.text s) w
  | whole {v : Int} {w : List Char} : IsWhole v w → IsValue (.whole v) w

/-- Blanks at the end of a line, and perhaps a comment. -/
inductive IsTrail : List Char → Prop
  | blanks {s : List Char} : IsBlanks s → IsTrail s
  | comment {s w : List Char} : IsBlanks s → (∀ c ∈ w, inComment c = true) → IsTrail (s ++ '#' :: w)

/-- A line without its end, and the entry on it, if there is one. -/
inductive IsLine : Option (String × Value) → List Char → Prop
  | empty {trail : List Char} : IsTrail trail → IsLine none trail
  | entry {name : String} {v : Value} {indent key behind before value trail : List Char} :
      IsBlanks indent → IsKey name key → IsBlanks behind → IsBlanks before → IsValue v value →
      IsTrail trail →
      IsLine (some (name, v)) (indent ++ (key ++ (behind ++ '=' :: (before ++ (value ++ trail)))))

/-- A document and its entries in the order of their lines. The last line need not be ended. -/
inductive IsDocument : List (String × Value) → List Char → Prop
  | last {entry : Option (String × Value)} {w : List Char} : IsLine entry w → IsDocument entry.toList w
  | line {entry : Option (String × Value)} {es : List (String × Value)} {w e s : List Char} :
      IsLine entry w → Text.IsLineEnd e → IsDocument es s → IsDocument (entry.toList ++ es) (w ++ (e ++ s))

/-- The text of a document, which may begin with the mark that some editors put before it. -/
inductive IsWritten (es : List (String × Value)) (s : String) : Prop
  | plain : IsDocument es s.toList → IsWritten es s
  | marked {w : List Char} : s.toList = '\uFEFF' :: w → IsDocument es w → IsWritten es s

variable {name : String} {v : Value} {entry : Option (String × Value)} {es : List (String × Value)}
variable {c : Char} {behind indent key r rest s trail value w : List Char} {fuel depth : Nat}

/-! ## Ends of lines -/

/-- What follows a line, and what is left of it behind the end of the line. -/
inductive EndsLine : List Char → List Char → Prop
  | document : EndsLine [] []
  | line {e s : List Char} : Text.IsLineEnd e → EndsLine (e ++ s) s

theorem EndsLine.stops (h : EndsLine rest r) {p : Char → Bool} (feed : p '\n' = false)
    (half : p '\r' = false) : Stops p rest := by
  cases h with
  | document => exact stops_nil p
  | line isEnd =>
    rcases isEnd with rfl | rfl
    · exact stops_cons feed _
    · exact stops_cons half _

theorem EndsLine.readLineEnd (h : EndsLine rest r) : readLineEnd rest = some r := by
  cases h with
  | document => rfl
  | line isEnd => rcases isEnd with rfl | rfl <;> rfl

theorem blanks_part (h : IsBlanks s) (stops : Stops isBlank rest) : blanks (s ++ rest) = rest :=
  dropWhile_part h stops

theorem blanks_of_stops (stops : Stops isBlank rest) : blanks rest = rest :=
  blanks_part (List.forall_mem_nil _) stops

/-- A comment goes on to the end of the line. -/
theorem comment_part (h : ∀ c ∈ w, inComment c = true) (ends : EndsLine rest r) :
    comment ('#' :: w ++ rest) = rest := dropWhile_part h (ends.stops rfl rfl)

theorem comment_of_endsLine (ends : EndsLine rest r) : comment rest = rest := by
  cases ends with
  | document => rfl
  | line isEnd => rcases isEnd with rfl | rfl <;> rfl

/-- The blanks at the end of a line and its comment are left out. -/
theorem IsTrail.endLine (h : IsTrail trail) (ends : EndsLine rest r) : endLine (trail ++ rest) = some r := by
  cases h with
  | blanks blank =>
    rw [Toml.endLine, blanks_part blank (ends.stops rfl rfl), comment_of_endsLine ends, ends.readLineEnd]
  | @comment s w blank inside =>
    have sign : Stops isBlank ('#' :: w ++ rest) := stops_cons rfl _
    rw [Toml.endLine, List.append_assoc, blanks_part blank sign, comment_part inside ends, ends.readLineEnd]

/-- What a line may end with is what a value may be followed by. -/
theorem IsTrail.endsValue (h : IsTrail trail) (ends : EndsLine rest r) : EndsValue (trail ++ rest) := by
  have blank_first {s t : List Char} (blank : IsBlanks s) (behind : EndsValue t) : EndsValue (s ++ t) := by
    cases s with
    | nil => exact behind
    | cons c s =>
      rintro _ ⟨⟩
      have first := blank c List.mem_cons_self
      rw [isBlank, Bool.or_eq_true, beq_iff_eq, beq_iff_eq] at first
      rcases first with rfl | rfl <;> decide
  cases h with
  | blanks blank =>
    apply blank_first blank
    cases ends with
    | document => rintro c ⟨⟩
    | line isEnd =>
      rcases isEnd with rfl | rfl
      · rintro c ⟨⟩
        decide
      · rintro c ⟨⟩
        decide
  | comment blank _ =>
    rw [List.append_assoc]
    apply blank_first blank
    rintro c ⟨⟩
    decide

/-! ## Keys -/

theorem Text.IsQuoted.exists_cons (h : Text.IsQuoted name w) :
    ∃ c t, w = c :: t ∧ (c = '"' ∨ c = '\'') := by
  cases h with
  | double => exact ⟨'"', _, rfl, .inl rfl⟩
  | single => exact ⟨'\'', _, rfl, .inr rfl⟩

/-- A key begins with a quote or with a character of keys without quotes. -/
theorem IsKey.exists_cons (h : IsKey name key) :
    ∃ c t, key = c :: t ∧ (inBareKey c || c == '"' || c == '\'') = true := by
  cases h with
  | bare some_char kept =>
    obtain ⟨c, t, first⟩ := List.exists_cons_of_ne_nil some_char
    rw [first] at kept
    exact ⟨c, t, first, by rw [kept c List.mem_cons_self]; rfl⟩
  | quoted isQuoted =>
    obtain ⟨c, t, rfl, quote⟩ := isQuoted.exists_cons
    refine ⟨c, t, rfl, ?_⟩
    rcases quote with rfl | rfl <;> rfl

/-- Behind a key comes a blank or the sign between key and value. -/
theorem stops_behind {p : Char → Bool} (space : p ' ' = false) (tab : p '\t' = false) (sign : p '=' = false)
    (blank : IsBlanks behind) (rest : List Char) : Stops p (behind ++ '=' :: rest) := by
  cases behind with
  | nil => exact stops_cons sign rest
  | cons c behind =>
    have first := blank c List.mem_cons_self
    rw [isBlank, Bool.or_eq_true, beq_iff_eq, beq_iff_eq] at first
    rcases first with rfl | rfl
    · exact stops_cons space _
    · exact stops_cons tab _

theorem IsKey.readKey (h : IsKey name key) (blank : IsBlanks behind) (rest : List Char) :
    readKey (key ++ (behind ++ '=' :: rest)) = some (name, behind ++ '=' :: rest) := by
  cases h with
  | bare some_char kept =>
    have stops : Stops inBareKey (behind ++ '=' :: rest) := stops_behind rfl rfl rfl blank rest
    have taken := takeWhile_part kept stops
    have left := dropWhile_part kept stops
    have whole : String.ofList name.toList = name := String.ofList_toList
    generalize name.toList = w at *
    obtain ⟨c, t, rfl⟩ := List.exists_cons_of_ne_nil some_char
    have first := kept c List.mem_cons_self
    have unquoted : (c = '"' || c = '\'') = false := by
      rw [Bool.or_eq_false_iff, decide_eq_false_iff_not, decide_eq_false_iff_not]
      constructor
      · rintro rfl
        cases first
      · rintro rfl
        cases first
    rw [List.cons_append] at taken left ⊢
    rw [Toml.readKey, if_neg (ne_true_of_eq_false unquoted), if_pos first, taken, left, whole]
  | quoted isQuoted =>
    have ends : Text.EndsText (behind ++ '=' :: rest) := by
      intro c first
      have other := stops_behind (p := fun c => c == '"' || c == '\'') rfl rfl rfl blank rest c first
      rw [Bool.or_eq_false_iff, beq_eq_false_iff_ne, beq_eq_false_iff_ne] at other
      exact other
    have read : Text.readQuoted false (key ++ (behind ++ '=' :: rest)) = some (name, behind ++ '=' :: rest) :=
      isQuoted.read ends
    obtain ⟨c, t, rfl, quote⟩ := isQuoted.exists_cons
    have quoted : (c = '"' || c = '\'') = true := by rcases quote with rfl | rfl <;> rfl
    rw [List.cons_append] at read ⊢
    rw [Toml.readKey, if_pos quoted, read]

/-- A key of one part is read up to the sign behind it. -/
theorem IsKey.readPath (h : IsKey name key) (blank : IsBlanks behind) (rest : List Char) :
    ∃ left, readPath keyLimit (key ++ (behind ++ '=' :: rest)) = some ([⟨name, left⟩], '=' :: rest) := by
  have read := h.readKey blank rest
  obtain ⟨c, t, rfl, first⟩ := h.exists_cons
  have no_blank : isBlank c = false := by
    rw [isBlank, Bool.or_eq_false_iff, beq_eq_false_iff_ne, beq_eq_false_iff_ne]
    constructor
    · rintro rfl
      cases first
    · rintro rfl
      cases first
  have front : blanks (c :: t ++ (behind ++ '=' :: rest)) = c :: t ++ (behind ++ '=' :: rest) :=
    blanks_of_stops (stops_cons no_blank _)
  have sign : blanks (behind ++ '=' :: rest) = '=' :: rest := blanks_part blank (stops_cons rfl rest)
  refine ⟨(c :: t ++ (behind ++ '=' :: rest)).length, ?_⟩
  rw [keyLimit, Toml.readPath]
  simp only [front, read, sign]
  rfl

/-! ## Values -/

theorem Text.IsText.exists_cons (h : Text.IsText name w) : ∃ c t, w = c :: t ∧ (c = '"' ∨ c = '\'') := by
  cases h with
  | line isQuoted => exact isQuoted.exists_cons
  | lines kind => exact ⟨_, _, rfl, kind.imp And.left And.left⟩

theorem IsWhole.exists_cons {n : Int} (h : IsWhole n w) :
    ∃ c t, w = c :: t ∧ (c == '+' || c == '-' || (digitIn? 10 c).isSome) = true := by
  cases h with
  | based => exact ⟨'0', _, rfl, rfl⟩
  | decimal isSign digits =>
    cases isSign with
    | plus => exact ⟨'+', _, rfl, rfl⟩
    | minus => exact ⟨'-', _, rfl, rfl⟩
    | none =>
      cases digits with
      | @mk c d ds w digit more => exact ⟨c, w, rfl, by rw [digit, Option.isSome_some, Bool.or_true]⟩

/-- A value is read up to what may follow it. -/
theorem IsValue.read (h : IsValue v value) (ends : EndsValue rest) :
    readValue (fuel + 1) depth (value ++ rest) = some (v, rest) := by
  cases h with
  | text isText =>
    have others : Text.EndsText rest := fun c first => by
      have mark := ends c first
      constructor
      · rintro rfl
        exact absurd mark (by decide)
      · rintro rfl
        exact absurd mark (by decide)
    have read := isText.read others
    obtain ⟨c, t, rfl, quote⟩ := isText.exists_cons
    have quoted : (c = '"' || c = '\'') = true := by rcases quote with rfl | rfl <;> rfl
    rw [List.cons_append] at read ⊢
    rw [readValue, if_pos quoted, read]
    rfl
  | whole isWhole =>
    have read := isWhole.read ends
    obtain ⟨c, t, rfl, first⟩ := isWhole.exists_cons
    have other (sign : Char) (none : (sign == '+' || sign == '-' || (digitIn? 10 sign).isSome) = false) :
        c ≠ sign := by
      rintro rfl
      rw [none] at first
      cases first
    have unquoted : (c = '"' || c = '\'') = false := by
      rw [decide_eq_false (other '"' rfl), decide_eq_false (other '\'' rfl)]
      rfl
    rw [List.cons_append] at read ⊢
    rw [readValue, if_neg (ne_true_of_eq_false unquoted), if_neg (other '[' rfl), if_neg (other '\x7b' rfl), read]

/-! ## Tables -/

/-- The names and values of a table, in order. -/
def Table.listing (t : Table) : List (String × Value) := t.entries.map fun e => (e.1.name, e.2.asValue)

/-- A name that is not in the table yet is put at its end. -/
theorem Table.put_of_fresh {t : Table} {k : Key} (header : t.kind = .header)
    (fresh : k.name ∉ t.listing.map Prod.fst) (n : Node) : t.put [] k n = some (t.add k n) := by
  have none_there : t.get? k.name = none := by
    rw [Table.get?, Option.map_eq_none_iff, List.find?_eq_none]
    intro e listed same
    apply fresh
    rw [← beq_iff_eq.mp same]
    exact List.mem_map_of_mem (List.mem_map_of_mem listed)
  rw [Table.put, Table.update, header, none_there]
  rfl

theorem Table.listing_add (t : Table) (k : Key) (n : Node) :
    (t.add k n).listing = t.listing ++ [(k.name, n.asValue)] := List.map_append

/-! ## Reading -/

/-- The draft with another table to add to. -/
def Draft.withCurrent (d : Draft) (t : Table) : Draft := { d with current := t }

variable {d : Draft}

/-- Reading the line of an entry puts the entry at the end of the table. -/
theorem readEntry_part {before : List Char} (isKey : IsKey name key) (behind_blank : IsBlanks behind)
    (before_blank : IsBlanks before) (isValue : IsValue v value) (isTrail : IsTrail trail)
    (ends : EndsLine rest r) (header : d.current.kind = .header)
    (fresh : name ∉ d.current.listing.map Prod.fst) :
    ∃ t : Table, t.kind = .header ∧ t.listing = d.current.listing ++ [(name, v)] ∧
      readEntry d (key ++ (behind ++ '=' :: (before ++ (value ++ (trail ++ rest))))) =
        some (d.withCurrent t, r) := by
  obtain ⟨left, path⟩ := isKey.readPath behind_blank (before ++ (value ++ (trail ++ rest)))
  have unspaced : blanks (before ++ (value ++ (trail ++ rest))) = value ++ (trail ++ rest) := by
    apply blanks_part before_blank
    cases isValue with
    | text isText =>
      obtain ⟨c, t, rfl, quote⟩ := isText.exists_cons
      rcases quote with rfl | rfl <;> exact stops_cons rfl _
    | whole isWhole =>
      obtain ⟨c, t, rfl, first⟩ := isWhole.exists_cons
      apply stops_cons
      rw [isBlank, Bool.or_eq_false_iff, beq_eq_false_iff_ne, beq_eq_false_iff_ne]
      constructor
      · rintro rfl
        cases first
      · rintro rfl
        cases first
  have read : readValue (enough (value ++ (trail ++ rest))) depthLimit (value ++ (trail ++ rest)) =
      some (v, trail ++ rest) := isValue.read (isTrail.endsValue ends)
  have put := Table.put_of_fresh (k := ⟨name, left⟩) header fresh (.value v (value ++ (trail ++ rest)).length)
  refine ⟨_, ?_, Table.listing_add d.current ⟨name, left⟩ (.value v (value ++ (trail ++ rest)).length), ?_⟩
  · exact header
  · rw [readEntry, path]
    simp only [unspaced, read, List.getLast?_singleton, List.dropLast_singleton, Draft.put, put,
      Option.map_some, isTrail.endLine ends]
    rfl

/-- Reading a line goes on behind its end, with its entry, if it has one, at the end of the table. -/
theorem IsLine.readLines (h : IsLine entry w) (ends : EndsLine rest r) (header : d.current.kind = .header)
    (fresh : ∀ e ∈ entry, e.1 ∉ d.current.listing.map Prod.fst) :
    ∃ t : Table, t.kind = .header ∧ t.listing = d.current.listing ++ entry.toList ∧
      ∀ fuel, readLines (fuel + 2) d (w ++ rest) = readLines (fuel + 1) (d.withCurrent t) r := by
  cases h with
  | empty isTrail =>
    refine ⟨d.current, header, (List.append_nil _).symm, fun fuel => ?_⟩
    have goes {c : Char} {t : List Char} (front : blanks (w ++ rest) = c :: t)
        (sign : (c = '#' || c = '\n' || c = '\r') = true) (line_end : readLineEnd (comment (c :: t)) = some r) :
        Toml.readLines (fuel + 2) d (w ++ rest) = Toml.readLines (fuel + 1) d r := by
      rw [Toml.readLines, front]
      dsimp only
      rw [if_pos sign, line_end]
    cases isTrail with
    | blanks blank =>
      have front := blanks_part blank (ends.stops rfl rfl)
      have line_end := ends.readLineEnd
      have bare := comment_of_endsLine ends
      cases ends with
      | document =>
        rw [Toml.readLines, front]
        rfl
      | line isEnd =>
        rcases isEnd with rfl | rfl
        · exact goes front rfl (by rw [← line_end, ← bare]; rfl)
        · exact goes front rfl (by rw [← line_end, ← bare]; rfl)
    | @comment s w blank inside =>
      have front : blanks (s ++ '#' :: w ++ rest) = '#' :: (w ++ rest) := by
        rw [List.append_assoc]
        exact blanks_part blank (stops_cons rfl _)
      have left : comment ('#' :: (w ++ rest)) = rest := comment_part inside ends
      exact goes front rfl (by rw [left, ends.readLineEnd])
  | @entry name v indent key behind before value trail indent_blank isKey behind_blank before_blank isValue
      isTrail =>
    obtain ⟨t, kind, listing, read⟩ := readEntry_part isKey behind_blank before_blank isValue isTrail ends
      header (fresh (name, v) rfl)
    refine ⟨t, kind, listing, fun fuel => ?_⟩
    obtain ⟨c, u, rfl, first⟩ := isKey.exists_cons
    have other (sign : Char) (none : (inBareKey sign || sign == '"' || sign == '\'') = false) : c ≠ sign := by
      rintro rfl
      rw [none] at first
      cases first
    have no_blank : isBlank c = false := by
      rw [isBlank, beq_eq_false_iff_ne.mpr (other ' ' rfl), beq_eq_false_iff_ne.mpr (other '\t' rfl)]
      rfl
    have no_end : (c = '#' || c = '\n' || c = '\r') = false := by
      rw [decide_eq_false (other '#' rfl), decide_eq_false (other '\n' rfl), decide_eq_false (other '\r' rfl)]
      rfl
    simp only [List.append_assoc, List.cons_append] at read ⊢
    rw [Toml.readLines, blanks_part indent_blank (stops_cons no_blank _)]
    simp only [no_end, Bool.false_eq_true, if_false, if_neg (other '[' rfl), read]

/-! ## Documents -/

theorem IsLine.entry_eq_none (h : IsLine entry []) : entry = none := by
  generalize line : ([] : List Char) = w at h
  cases h with
  | empty => rfl
  | entry _ isKey =>
    obtain ⟨c, t, rfl, -⟩ := isKey.exists_cons
    exact absurd line.symm (List.append_ne_nil_of_right_ne_nil _ (List.cons_ne_nil _ _))

theorem fresh_of_distinct {before after : List (String × Value)}
    (distinct : ((before ++ (entry.toList ++ after)).map Prod.fst).Nodup) :
    ∀ e ∈ entry, e.1 ∉ before.map Prod.fst := by
  rintro e rfl listed
  rw [List.map_append, List.nodup_append] at distinct
  exact distinct.2.2 e.1 listed e.1 List.mem_cons_self rfl

/-- Reading a document puts its entries at the end of the table, one line after the other. -/
theorem IsDocument.readLines (h : IsDocument es w) (enough : w.length < fuel) (header : d.current.kind = .header)
    (distinct : ((d.current.listing ++ es).map Prod.fst).Nodup) :
    ∃ t : Table, t.listing = d.current.listing ++ es ∧ readLines fuel d w = some (d.withCurrent t) := by
  induction h generalizing d fuel with
  | @last entry w line =>
    match fuel, enough with
    | 1, enough =>
      obtain rfl := List.eq_nil_of_length_eq_zero (Nat.lt_one_iff.mp enough)
      rw [line.entry_eq_none]
      exact ⟨d.current, (List.append_nil _).symm, rfl⟩
    | fuel + 2, _ =>
      rw [← List.append_nil entry.toList] at distinct
      obtain ⟨t, -, listing, read⟩ := line.readLines .document header (fresh_of_distinct distinct)
      refine ⟨t, listing, ?_⟩
      rw [← List.append_nil w, read]
      rfl
  | @line entry es w e s line isEnd _ ih =>
    obtain ⟨t, kind, listing, read⟩ := line.readLines (.line isEnd) header (fresh_of_distinct distinct)
    have longer : s.length + 1 < fuel := by
      have some_end : 0 < e.length := by rcases isEnd with rfl | rfl <;> decide
      rw [List.length_append, List.length_append] at enough
      omega
    obtain ⟨fuel, rfl⟩ : ∃ n, fuel = n + 2 := ⟨fuel - 2, by omega⟩
    have together : (d.withCurrent t).current.listing ++ es = d.current.listing ++ (entry.toList ++ es) := by
      rw [← List.append_assoc, ← listing]
      rfl
    have left : s.length < fuel + 1 := by omega
    obtain ⟨t', listing', read'⟩ := ih left (show (d.withCurrent t).current.kind = .header from kind)
      (by rw [together]; exact distinct)
    exact ⟨t', listing'.trans together, (read fuel).trans read'⟩

/-- No document begins with the mark that some editors put before one. -/
theorem IsDocument.head?_ne (h : IsDocument es w) : w.head? ≠ some '\uFEFF' := by
  have blank_first {s t : List Char} (blank : IsBlanks s) (behind : t.head? ≠ some '\uFEFF') :
      (s ++ t).head? ≠ some '\uFEFF' := by
    cases s with
    | nil => exact behind
    | cons c s =>
      intro same
      have first := blank c List.mem_cons_self
      rw [Option.some.inj same] at first
      cases first
  have line_first {entry : Option (String × Value)} {w rest : List Char} (line : IsLine entry w)
      (behind : rest.head? ≠ some '\uFEFF') : (w ++ rest).head? ≠ some '\uFEFF' := by
    cases line with
    | empty isTrail =>
      cases isTrail with
      | blanks blank => exact blank_first blank behind
      | comment blank _ =>
        rw [List.append_assoc]
        exact blank_first blank fun same => absurd (Option.some.inj same) (by decide)
    | entry indent_blank isKey =>
      obtain ⟨c, t, rfl, first⟩ := isKey.exists_cons
      rw [List.append_assoc]
      apply blank_first indent_blank
      intro same
      rw [Option.some.inj same] at first
      cases first
  cases h with
  | last line =>
    rw [← List.append_nil w]
    exact line_first line fun same => nomatch same
  | line line isEnd _ =>
    apply line_first line
    rcases isEnd with rfl | rfl
    · exact fun same => absurd (Option.some.inj same) (by decide)
    · exact fun same => absurd (Option.some.inj same) (by decide)

theorem withoutMark_of_ne (h : w.head? ≠ some '\uFEFF') : withoutMark w = w := by
  cases w with
  | nil => rfl
  | cons c w => exact if_neg fun same => h (congrArg some same)

/-- A document of entries with distinct names is read as the table of its entries. -/
theorem IsWritten.read {s : String} (h : IsWritten es s) (distinct : (es.map Prod.fst).Nodup) :
    ∃ t : Table, read s = some t ∧ t.listing = es := by
  obtain ⟨w, document, unmarked, shorter⟩ :
      ∃ w, IsDocument es w ∧ withoutMark s.toList = w ∧ w.length ≤ s.length := by
    cases h with
    | plain document =>
      exact ⟨_, document, withoutMark_of_ne document.head?_ne, Nat.le_of_eq s.length_toList⟩
    | @marked w mark document =>
      refine ⟨w, document, by rw [mark]; rfl, ?_⟩
      rw [← s.length_toList, mark]
      exact Nat.le_succ _
  obtain ⟨t, listing, lines⟩ := document.readLines (d := .start) (Nat.lt_succ_of_le shorter) rfl distinct
  refine ⟨t, ?_, listing⟩
  rw [Toml.read, unmarked, lines]
  rfl

end GuideRig.Toml
