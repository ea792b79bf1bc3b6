/-
# GuideRig.Proofs.Telemetry.Documents -- what counts in the document of a configuration or an event

Configurations and events are read by the names of their fields, so that the order of the members, members
of other names and the layout of the text count for nothing, while a field that is given twice is a fault
(`load_looksUp`). Whole numbers are read exactly or not at all, however many digits they have
(`load_exact`).
-/

import GuideRig.Proofs.Conf.Counts
import GuideRig.Proofs.Telemetry.Report

namespace GuideRig

open Ascii Json

/-! ## Events -/

namespace Event

/-- The fields of an event before its time stamp. -/
def namedFields : List Json.Field :=
  [⟨"actionName", .text, none⟩, ⟨"isMobile", .flag, none⟩, ⟨"isSubquery", .flag, none⟩,
    ⟨"tileName", .text, none⟩]

/-- The time stamp of an event. -/
def stampField : Json.Field := ⟨"timestamp", .whole .i64, none⟩

theorem fields_record : record.fields = namedFields ++ stampField :: [] := rfl

theorem fits_i64 : WholeRange.i64.Fits := by
  constructor <;> decide

theorem sound_record : ∀ f ∈ record.fields, f.Sound := by
  have text (name : String) : (Json.Field.mk name .text none).Sound := ⟨trivial, nofun⟩
  have flag (name : String) : (Json.Field.mk name .flag none).Sound := ⟨trivial, nofun⟩
  simp only [record, List.forall_mem_cons]
  exact ⟨text _, flag _, flag _, text _, ⟨fits_i64, nofun⟩, List.forall_mem_nil _⟩

theorem distinct_record : (record.fields.map Json.Field.name).Nodup := by decide

theorem read_eq_ok_iff {doc : Bytes} {e : Event} :
    read doc = .ok e ↔ ∃ ds, record.read doc = .ok ds ∧ ofFields ds = e := by
  unfold read
  cases record.read doc with
  | ok ds => simp
  | error f => simp

theorem exists_error_of_ne_ok {doc : Bytes} (h : ∀ e, read doc ≠ .ok e) :
    ∃ report, read doc = .error report := by
  cases out : read doc with
  | error report => exact ⟨report, rfl⟩
  | ok e => exact absurd out (h e)

/-- A number of 64 bits with a sign is one that a time stamp can be. -/
theorem i64_datum?_eq_some_iff {v : Int} {d : Datum} :
    WholeRange.i64.datum? v = some d ↔ ∃ t : Int64, v = t.toInt ∧ d = .whole t.toInt := by
  have low : WholeRange.i64.low = -2 ^ 63 := rfl
  have high : WholeRange.i64.high = 2 ^ 63 - 1 := rfl
  rw [WholeRange.datum?, low, high]
  constructor
  · intro h
    split at h
    next inside =>
      obtain rfl := Option.some.inj h
      have kept : (Int64.ofInt v).toInt = v := Int64.toInt_ofInt_of_le inside.1 (by omega)
      exact ⟨Int64.ofInt v, kept.symm, by rw [kept]⟩
    next => cases h
  · rintro ⟨t, rfl, rfl⟩
    have least := t.le_toInt
    have most := t.toInt_lt
    rw [if_pos (by omega)]

/-- Where the time stamp stands in an event that is read, another literal may stand: the event is read with
the time that it writes, if that is one of 64 bits. -/
theorem read_iff_stamp {tree : Json.Tree → Json.Tree} {t₀ : Json.Tree} {doc₀ : Bytes} {e₀ : Event}
    (place : FieldPlace stampField namedFields tree) (isDocument₀ : IsDocument (tree t₀) doc₀)
    (reads : read doc₀ = .ok e₀) {literal doc : Bytes} (isDocument : IsDocument (tree (.number literal)) doc)
    (e : Event) : read doc = .ok e ↔
      ∃ t : Int64, whole? literal = some t.toInt ∧ e = { e₀ with timestamp := t } := by
  obtain ⟨ds₀, reads₀, rfl⟩ := read_eq_ok_iff.mp reads
  obtain ⟨ds, ds', front, back, all⟩ :=
    FieldPlace.read fields_record sound_record distinct_record place isDocument₀ reads₀
  obtain ⟨action, mobile, sub, tile, rfl⟩ : ∃ action mobile sub tile,
      ds = [.text action, .flag mobile, .flag sub, .text tile] := by
    match ds, front with
    | [.text action, .flag mobile, .flag sub, .text tile], _ => exact ⟨action, mobile, sub, tile, rfl⟩
  obtain rfl := List.forall₂_nil_left_iff.mp back
  obtain ⟨v₀, rfl⟩ : ∃ v₀, ds₀ = [.text action, .flag mobile, .flag sub, .text tile, .whole v₀] := by
    have before := all isDocument₀
    rw [reads₀] at before
    obtain ⟨d₀, isDatum, rfl⟩ := Option.map_eq_some_iff.mp before.symm
    have fits : stampField.shape.Fits := fits_i64
    match d₀, Shape.holds_of_datum? fits isDatum with
    | .whole v₀, _ => exact ⟨v₀, rfl⟩
  rw [read_eq_ok_iff]
  simp only [← toOption_eq_some_iff, all isDocument]
  constructor
  · rintro ⟨_, read, rfl⟩
    obtain ⟨d, isDatum, rfl⟩ := Option.map_eq_some_iff.mp read
    obtain ⟨v, isWhole, isDatum⟩ := Option.bind_eq_some_iff.mp isDatum
    obtain ⟨t, rfl, rfl⟩ := i64_datum?_eq_some_iff.mp isDatum
    exact ⟨t, isWhole, congrArg (Event.mk action mobile sub tile) (Int64.ofInt_toInt t)⟩
  · rintro ⟨t, isWhole, rfl⟩
    have isDatum : stampField.shape.datum? (.number literal) = some (.whole t.toInt) :=
      Option.bind_eq_some_iff.mpr ⟨t.toInt, isWhole, i64_datum?_eq_some_iff.mpr ⟨t, rfl, rfl⟩⟩
    refine ⟨[.text action, .flag mobile, .flag sub, .text tile, .whole t.toInt], ?_, ?_⟩
    · rw [isDatum]
      rfl
    · exact congrArg (Event.mk action mobile sub tile) (Int64.ofInt_toInt t)

end Event

/-! ## A configuration of one count, and an event -/

/-- A configuration of no queries and one count. -/
def countTree (literal : Bytes) : Json.Tree :=
  .object [(plainly "queries", .list []), (plainly "actions", .object [(plainly "a", .number literal)])]

/-- The text of `countTree` without spaces. -/
def countText (literal : Bytes) : Bytes :=
  byte '\x7b' :: joined [member "queries" (bytes "[]"),
    member "actions" (byte '\x7b' :: joined [member "a" literal] ++ [byte '\x7d'])] ++ [byte '\x7d']

theorem isText_entries {literal : Bytes} (h : IsNumber literal) :
    IsText (.object [(plainly "a", .number literal)])
      (byte '\x7b' :: joined [member "a" literal] ++ [byte '\x7d']) :=
  @isText_object [("a", .number literal, literal)] _ (by simp) (List.forall_mem_singleton.mpr (.number h)) rfl

theorem isText_none_queried : IsText (.list []) (bytes "[]") :=
  @isText_list [] _ (List.forall_mem_nil _) rfl

/-- The text of a configuration of no queries and some counts, without spaces. -/
def countsText (counts : List (String × Json.Tree × Bytes)) : Bytes :=
  byte '\x7b' :: joined [member "queries" (bytes "[]"), member "actions"
    (byte '\x7b' :: joined (counts.map fun m => member m.1 m.2.2) ++ [byte '\x7d'])] ++ [byte '\x7d']

theorem isDocument_countsText {counts : List (String × Json.Tree × Bytes)}
    (plain : ∀ m ∈ counts, ∀ c ∈ m.1.toList, c ≠ '"' ∧ c ≠ '\\' ∧ 0x20 ≤ c.toNat)
    (texts : ∀ m ∈ counts, IsText m.2.1 m.2.2) :
    IsDocument (.object [(plainly "queries", .list []),
      (plainly "actions", .object (counts.map fun m => (plainly m.1, m.2.1)))]) (countsText counts) :=
  IsText.isDocument <| @isText_object [("queries", .list [], bytes "[]"),
    ("actions", .object (counts.map fun m => (plainly m.1, m.2.1)),
      byte '\x7b' :: joined (counts.map fun m => member m.1 m.2.2) ++ [byte '\x7d'])] _ (by simp)
    (List.forall_mem_cons.mpr
      ⟨isText_none_queried, List.forall_mem_singleton.mpr (isText_object plain texts rfl)⟩) rfl

theorem isDocument_countText {literal : Bytes} (h : IsNumber literal) :
    IsDocument (countTree literal) (countText literal) :=
  @isDocument_countsText [("a", .number literal, literal)] (by simp)
    (List.forall_mem_singleton.mpr (.number h))

/-- A count below ten is written by its digit. -/
theorem load_countText (files : Files) (path : String) :
    Conf.load (files.written path (countText (bytes "1"))) path = .ok ⟨[], .ofList [("a", 1)]⟩ := by
  have digit : decimal 1 = bytes "1" := decimal_of_lt (by decide)
  have written : countText (bytes "1") = Conf.write ⟨[], .ofList [("a", 1)]⟩ := by
    rw [← digit]
    rfl
  simp only [Conf.load, Files.bytes_written, written, Conf.read_write]

/-- The members of an event with a time stamp. -/
def stampMembers (literal : Bytes) : List (String × Json.Tree × Bytes) :=
  [("actionName", .string (plainly "a"), quote "a"), ("isMobile", .flag true, bytes "true"),
    ("isSubquery", .flag false, bytes "false"), ("tileName", .string (plainly "b"), quote "b"),
    ("timestamp", .number literal, literal)]

/-- The text of an event without spaces. -/
def stampText (literal : Bytes) : Bytes :=
  byte '\x7b' :: joined ((stampMembers literal).map fun m => member m.1 m.2.2) ++ [byte '\x7d']

theorem isDocument_stampText {literal : Bytes} (h : IsNumber literal) :
    IsDocument (.object ((stampMembers literal).map fun m => (plainly m.1, m.2.1))) (stampText literal) := by
  have text {s : String} (plain : ∀ c ∈ s.toList, c ≠ '"' ∧ c ≠ '\\' ∧ 0x20 ≤ c.toNat) :
      IsText (.string (plainly s)) (quote s) := .string (isQuoted_quote plain)
  refine (isText_object (by simp [stampMembers]) ?_ rfl).isDocument
  simp only [stampMembers, List.forall_mem_cons]
  exact ⟨text (by simp), @IsText.flag true, @IsText.flag false, text (by simp), .number h,
    List.forall_mem_nil _⟩

theorem read_stampText : Event.read (stampText (bytes "0")) = .ok ⟨"a", true, false, "b", 0⟩ := by
  have digit : decimal 0 = bytes "0" := decimal_of_lt (by decide)
  have written : stampText (bytes "0") = Event.write ⟨"a", true, false, "b", 0⟩ := by
    rw [← digit]
    rfl
  rw [written, Event.read_write]

/-! ## What counts in a document -/

/-- Configurations and events are looked up by the names of their fields. Of the actions of a configuration
each name has the last of its counts, and entries of different names may come in any order. -/
theorem load_looksUp (files : Files) (path : String) :
    LooksUp Conf.record (fun doc c => Conf.load (files.written path doc) path = .ok c)
      (fun doc => ∃ report, Conf.load (files.written path doc) path = .error (.json report)) ∧
    LooksUp Event.record (fun doc e => Event.read doc = .ok e)
      (fun doc => ∃ report, Event.read doc = .error report) ∧
    ∀ {tree : Json.Tree → Json.Tree} {entries : List (List Piece × Json.Tree)} {doc : Bytes} {c : Conf},
      FieldPlace Conf.actionsField [Conf.queriesField] tree → IsDocument (tree (.object entries)) doc →
      Conf.load (files.written path doc) path = .ok c →
        (∀ name count, (name, count) ∈ c.actions.entries ↔ Conf.IsLastCount entries name count) ∧
        ∀ {entries' doc'}, entries.Perm entries' → (entries.map fun e => text? e.1).Nodup →
          IsDocument (tree (.object entries')) doc' →
          Conf.load (files.written path doc') path = .ok c := by
  refine ⟨?_, ?_, ?_⟩
  · refine .of_read (by decide) (fun f field => (Conf.sound_record f field).fits) Conf.distinct_record
      Conf.load_written_eq_ok_iff ?_
    exact Conf.load_written_of_error files path
  · refine .of_read (by decide) (fun f field => (Event.sound_record f field).fits) Event.distinct_record
      Event.read_eq_ok_iff ?_
    intro doc f fault
    exact ⟨f.report doc, by simp only [Event.read, fault]⟩
  · intro tree entries doc c place isDocument loads
    obtain ⟨counts, isCounts, made⟩ :=
      (Conf.load_iff_counts place isDocument loads isDocument c).mp loads
    have held : c.actions = .ofList counts := congrArg Conf.actions made
    constructor
    · intro name count
      rw [held, Conf.mem_iff_isLastCount isCounts]
    · intro entries' doc' perm distinct isDocument'
      obtain ⟨counts', isCounts', same⟩ := Conf.exists_counts_of_perm isCounts perm distinct
      refine (Conf.load_iff_counts place isDocument loads isDocument' c).mpr ⟨counts', isCounts', ?_⟩
      rw [same, ← held]

/-- The members of a configuration in another order, with one of an unknown name before them, and one of
them a second time. -/
theorem load_looksUp_widened :
    let files : Files := fun _ => .error .notFound
    let one : List (List Piece × Json.Tree) := [(plainly "a", .number (bytes "1"))]
    let queries : List Piece × Json.Tree := (plainly "queries", .list [])
    let actions : List Piece × Json.Tree := (plainly "actions", .object one)
    let other : List Piece × Json.Tree := (plainly "x", .list [.object []])
    let doc := bytes "\x7b\"queries\":[],\"actions\":\x7b\"a\":1\x7d\x7d"
    let wide := bytes " \x7b\"x\":[\x7b\x7d],\"actions\":\x7b\"a\":1\x7d,\"queries\":[]\x7d"
    let twice := bytes "\x7b\"queries\":[],\"actions\":\x7b\"a\":1\x7d,\"queries\":[]\x7d"
    let c : Conf := ⟨[], .ofList [("a", 1)]⟩
    IsDocument (.object [queries, actions]) doc ∧ IsDocument (.object [other, actions, queries]) wide ∧
      IsDocument (.object [queries, actions, queries]) twice ∧
      Conf.load (files.written "bot.json" doc) "bot.json" = .ok c ∧
      Conf.load (files.written "bot.json" wide) "bot.json" = .ok c ∧
      ∃ report, Conf.load (files.written "bot.json" twice) "bot.json" = .error (.json report) := by
  intro files one queries actions other doc wide twice c
  have isOne : IsNumber (bytes "1") := (IsInteger.unsigned (show IsWhole (bytes "1") by decide)).isNumber
  have nested : IsText (.list [.object []]) (bytes "[\x7b\x7d]") := by
    have empty : IsText (.object []) (bytes "\x7b\x7d") :=
      @isText_object [] _ (List.forall_mem_nil _) (List.forall_mem_nil _) rfl
    exact @isText_list [(.object [], bytes "\x7b\x7d")] _ (List.forall_mem_singleton.mpr empty) rfl
  have plain : IsDocument (.object [queries, actions]) doc := by
    have spelled : doc = countText (bytes "1") := by decide
    rw [spelled]
    exact isDocument_countText isOne
  have spaced : IsDocument (.object [other, actions, queries]) wide := by
    have spelled : wide = bytes " " ++
        bytes "\x7b\"x\":[\x7b\x7d],\"actions\":\x7b\"a\":1\x7d,\"queries\":[]\x7d" ++ [] := by decide
    have gap : IsGap (bytes " ") := List.forall_mem_singleton.mpr (.inl rfl)
    rw [spelled]
    refine .mk gap ?_ (List.forall_mem_nil _)
    exact @isText_object [("x", .list [.object []], bytes "[\x7b\x7d]"),
        ("actions", .object one, bytes "\x7b\"a\":1\x7d"), ("queries", .list [], bytes "[]")] _ (by simp)
        (List.forall_mem_cons.mpr ⟨nested, List.forall_mem_cons.mpr ⟨isText_entries isOne,
          List.forall_mem_singleton.mpr isText_none_queried⟩⟩) (by decide)
  have repeated : IsDocument (.object [queries, actions, queries]) twice :=
    IsText.isDocument <| @isText_object [("queries", .list [], bytes "[]"),
      ("actions", .object one, bytes "\x7b\"a\":1\x7d"), ("queries", .list [], bytes "[]")] _ (by simp)
      (List.forall_mem_cons.mpr ⟨isText_none_queried, List.forall_mem_cons.mpr ⟨isText_entries isOne,
        List.forall_mem_singleton.mpr isText_none_queried⟩⟩) (by decide)
  have loads : Conf.load (files.written "bot.json" doc) "bot.json" = .ok c :=
    load_countText files "bot.json"
  have looksUp := (load_looksUp files "bot.json").1
  have unknown : ∀ f ∈ Conf.record.fields, f.name ≠ "x" := by decide
  refine ⟨plain, spaced, repeated, loads, ?_, ?_⟩
  · exact looksUp.rearranged plain loads (.swap actions queries [])
      (.add (text?_plainly "x") unknown (Widened.refl _)) spaced
  · have known : ∃ f ∈ Conf.record.fields, text? queries.1 = some f.name ∧
        ∃ m ∈ [queries, actions] ++ [], text? m.1 = some f.name :=
      ⟨Conf.queriesField, List.mem_cons_self, text?_plainly _, queries, List.mem_cons_self, text?_plainly _⟩
    exact looksUp.repeated plain loads known repeated

/-! ## Whole numbers -/

/-- A place of a document that is read for whole numbers of a range, exactly. -/
structure ReadsExactly {α : Type} (low high : Int) (written : Bytes → Bytes → Prop)
    (loads : Bytes → α → Prop) (fails : Bytes → Prop) (holds : α → Int → Prop) : Prop where
  /-- With an integer in the place, of whatever length, the document loads if the range has the number. -/
  inside : ∀ {literal doc : Bytes} {v : Int}, IsInteger literal v → written literal doc →
    ((∃ a, loads doc a) ↔ low ≤ v ∧ v ≤ high)
  /-- What is loaded holds the number itself. -/
  exactly : ∀ {literal doc : Bytes} {v : Int} {a : α}, IsInteger literal v → written literal doc →
    loads doc a → holds a v
  /-- Any other number is a fault. -/
  outside : ∀ {literal doc : Bytes} {v : Int}, IsInteger literal v → written literal doc →
    ¬ (low ≤ v ∧ v ≤ high) → fails doc
  /-- So is a literal with a fraction or an exponent. -/
  decimal : ∀ {literal doc : Bytes}, IsDecimal literal → written literal doc → fails doc

/-- A place is read exactly if what is loaded depends on the number alone that the literal writes. -/
theorem ReadsExactly.of_whole {α : Type} {low high : Int} {written : Bytes → Bytes → Prop}
    {loads : Bytes → α → Prop} {fails : Bytes → Prop} {holds : α → Int → Prop}
    (loads_iff : ∀ {literal doc}, written literal doc →
      ((∃ a, loads doc a) ↔ ∃ v, whole? literal = some v ∧ low ≤ v ∧ v ≤ high))
    (holds_of : ∀ {literal doc a v}, written literal doc → loads doc a → whole? literal = some v → holds a v)
    (fails_of : ∀ {doc}, (∀ a, ¬ loads doc a) → fails doc) :
    ReadsExactly low high written loads fails holds := by
  have inside {literal doc : Bytes} {v : Int} (integer : IsInteger literal v)
      (isWritten : written literal doc) : (∃ a, loads doc a) ↔ low ≤ v ∧ v ≤ high := by
    rw [loads_iff isWritten, integer.whole?]
    constructor
    · rintro ⟨_, ⟨⟩, bounds⟩
      exact bounds
    · intro bounds
      exact ⟨v, rfl, bounds⟩
  refine ⟨inside, ?_, ?_, ?_⟩
  · intro literal doc v a integer isWritten loaded
    exact holds_of isWritten loaded integer.whole?
  · intro literal doc v integer isWritten other
    exact fails_of fun a loaded => other ((inside integer isWritten).mp ⟨a, loaded⟩)
  · intro literal doc decimal isWritten
    apply fails_of
    intro a loaded
    obtain ⟨v, whole, -⟩ := (loads_iff isWritten).mp ⟨a, loaded⟩
    rw [decimal.whole?] at whole
    cases whole

/-- Action counts and time stamps are read exactly: in a document that loads with something else in their
place, a literal of any length is taken for the number that it writes or the load fails. Of two counts for
one name the later is held. -/
theorem load_exact (files : Files) (path : String) :
    (∀ {tree : Json.Tree → Json.Tree} {before after : List (List Piece × Json.Tree)} {key : List Piece} {t₀ : Json.Tree}
      {doc₀ : Bytes} {c₀ : Conf}, FieldPlace Conf.actionsField [Conf.queriesField] tree →
      IsDocument (tree (.object (before ++ (key, t₀) :: after))) doc₀ →
      Conf.load (files.written path doc₀) path = .ok c₀ →
      ReadsExactly 0 (2 ^ 32 - 1)
        (fun literal => IsDocument (tree (.object (before ++ (key, .number literal) :: after))))
        (fun doc c => Conf.load (files.written path doc) path = .ok c)
        (fun doc => ∃ report, Conf.load (files.written path doc) path = .error (.json report))
        (fun c v => ∀ name, text? key = some name → (∀ e ∈ after, text? e.1 ≠ some name) →
          ∃ n : UInt32, (name, n) ∈ c.actions.entries ∧ (n.toNat : Int) = v)) ∧
    ∀ {tree : Json.Tree → Json.Tree} {t₀ : Json.Tree} {doc₀ : Bytes} {e₀ : Event},
      FieldPlace Event.stampField Event.namedFields tree → IsDocument (tree t₀) doc₀ →
      Event.read doc₀ = .ok e₀ →
      ReadsExactly (-2 ^ 63) (2 ^ 63 - 1) (fun literal => IsDocument (tree (.number literal)))
        (fun doc e => Event.read doc = .ok e) (fun doc => ∃ report, Event.read doc = .error report)
        (fun e v => e.timestamp.toInt = v) := by
  constructor
  · intro tree before after key t₀ doc₀ c₀ place isDocument₀ loads₀
    obtain ⟨counts₀, isCounts₀, -⟩ :=
      (Conf.load_iff_counts place isDocument₀ loads₀ isDocument₀ c₀).mp loads₀
    have loads {literal doc : Bytes} (isWritten :
        IsDocument (tree (.object (before ++ (key, .number literal) :: after))) doc) (c : Conf) :=
      Conf.load_iff_counts place isDocument₀ loads₀ isWritten c
    refine .of_whole ?_ ?_ Conf.load_error_of_ne_ok
    · intro literal doc isWritten
      simp only [loads isWritten]
      rw [← Conf.exists_counts_iff isCounts₀]
      constructor
      · rintro ⟨_, counts, isCounts, rfl⟩
        exact ⟨counts, isCounts⟩
      · rintro ⟨counts, isCounts⟩
        exact ⟨_, counts, isCounts, rfl⟩
    · intro literal doc c v isWritten loaded whole name named last
      obtain ⟨counts, isCounts, rfl⟩ := (loads isWritten c).mp loaded
      obtain ⟨n, isCount⟩ : ∃ n, Conf.IsCount (key, .number literal) (name, n) := by
        obtain ⟨_, held, _, -, -, isCount, -⟩ := Conf.exists_counts_split isCounts
        have same : held.1 = name := Option.some.inj (isCount.1.symm.trans named)
        exact ⟨held.2, same ▸ isCount⟩
      refine ⟨n, (Conf.mem_iff_isLastCount isCounts).mpr ⟨before, _, after, rfl, isCount, last⟩, ?_⟩
      obtain ⟨-, _, ⟨⟩, whole'⟩ := isCount
      exact Option.some.inj (whole'.symm.trans whole)
  · intro tree t₀ doc₀ e₀ place isDocument₀ reads₀
    have reads {literal doc : Bytes} (isWritten : IsDocument (tree (.number literal)) doc) (e : Event) :=
      Event.read_iff_stamp place isDocument₀ reads₀ isWritten e
    refine .of_whole ?_ ?_ Event.exists_error_of_ne_ok
    · intro literal doc isWritten
      simp only [reads isWritten]
      constructor
      · rintro ⟨_, t, whole, rfl⟩
        have least := t.le_toInt
        have most := t.toInt_lt
        exact ⟨t.toInt, whole, by omega, by omega⟩
      · rintro ⟨v, whole, low, high⟩
        have kept : (Int64.ofInt v).toInt = v := Int64.toInt_ofInt_of_le low (by omega)
        exact ⟨_, Int64.ofInt v, by rw [whole, kept], rfl⟩
    · intro literal doc e v isWritten loaded whole
      obtain ⟨t, same, rfl⟩ := (reads isWritten e).mp loaded
      exact Option.some.inj (same.symm.trans whole)

/-- Numbers at the ends of the two ranges and behind them, and an exponent. -/
theorem load_exact_bounds :
    let files : Files := fun _ => .error .notFound
    let load := fun literal => Conf.load (files.written "bot.json" (countText (bytes literal))) "bot.json"
    let read := fun literal => Event.read (stampText (bytes literal))
    (load "1" = .ok ⟨[], .ofList [("a", 1)]⟩ ∧
      (∃ c, load "4294967295" = .ok c ∧ ∃ n : UInt32, ("a", n) ∈ c.actions.entries ∧
        (n.toNat : Int) = 4294967295) ∧
      (∃ report, load "4294967296" = .error (.json report)) ∧
      ∃ report, load "1e0" = .error (.json report)) ∧
    (read "0" = .ok ⟨"a", true, false, "b", 0⟩ ∧
      (∃ e, read "-9223372036854775808" = .ok e ∧ e.timestamp.toInt = -9223372036854775808) ∧
      (∃ report, read "9223372036854775808" = .error report) ∧
      ∃ report, read "1e0" = .error report) := by
  intro files load read
  have one : IsWhole (bytes "1") := by decide
  have zero : IsWhole (bytes "0") := by decide
  have most : IsInteger (bytes "4294967295") 4294967295 :=
    .unsigned (show IsWhole (bytes "4294967295") by decide)
  have beyond : IsInteger (bytes "4294967296") 4294967296 :=
    .unsigned (show IsWhole (bytes "4294967296") by decide)
  have least : IsInteger (bytes "-9223372036854775808") (-9223372036854775808) :=
    .minus (show IsWhole (bytes "9223372036854775808") by decide) (by decide)
  have above : IsInteger (bytes "9223372036854775808") 9223372036854775808 :=
    .unsigned (show IsWhole (bytes "9223372036854775808") by decide)
  have exponent : IsDecimal (bytes "1e0") :=
    ⟨[], bytes "1", bytes "e0", by decide, .inl rfl, one, [], bytes "e0", rfl, .inl rfl,
      .inr ⟨byte 'e', [], bytes "0", by decide, .inl rfl, .inl rfl, zero.1⟩, by decide⟩
  have count_place : FieldPlace Conf.actionsField [Conf.queriesField]
      fun t => .object ([(plainly "queries", .list [])] ++ (plainly "actions", t) :: []) :=
    .named (text?_plainly "actions")
  have counts := @(load_exact files "bot.json").1 _ [] [] (plainly "a") (.number (bytes "1"))
    (countText (bytes "1")) _ count_place (isDocument_countText (IsInteger.unsigned one).isNumber)
    (load_countText files "bot.json")
  have stamp_place : FieldPlace Event.stampField Event.namedFields fun t => .object
      (((stampMembers []).take 4).map (fun m => (plainly m.1, m.2.1)) ++ (plainly "timestamp", t) :: []) :=
    .named (text?_plainly "timestamp")
  have stamps := @(load_exact files "bot.json").2 _ (.number (bytes "0")) (stampText (bytes "0")) _
    stamp_place (isDocument_stampText (IsInteger.unsigned zero).isNumber) read_stampText
  refine ⟨⟨load_countText files "bot.json", ?_, ?_, ?_⟩, read_stampText, ?_, ?_, ?_⟩
  · have written := isDocument_countText most.isNumber
    obtain ⟨c, loads⟩ := (counts.inside most written).mpr (by decide)
    exact ⟨c, loads, counts.exactly most written loads "a" (text?_plainly "a") (List.forall_mem_nil _)⟩
  · exact counts.outside beyond (isDocument_countText beyond.isNumber) (by decide)
  · exact counts.decimal exponent (isDocument_countText exponent.isNumber)
  · have written := isDocument_stampText least.isNumber
    obtain ⟨e, reads⟩ := (stamps.inside least written).mpr (by decide)
    exact ⟨e, reads, stamps.exactly least written reads⟩
  · exact stamps.outside above (isDocument_stampText above.isNumber) (by decide)
  · exact stamps.decimal exponent (isDocument_stampText exponent.isNumber)

end GuideRig
