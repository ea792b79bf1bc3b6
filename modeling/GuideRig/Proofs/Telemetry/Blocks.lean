/-
# GuideRig.Proofs.Telemetry.Blocks -- a batch name by name

A batch goes through the names of its counts in their order and lists the events of each in one block. The
events of a name therefore stand between those of the names before it and those of the names after it,
and none of any other name is among them (`block_schedule`). Word for word the batch follows the stream,
so that a map whose names all come before those of another is served first, and the other map goes on with
the words that are left (`schedule_of_union`, `generate_blocks`).
-/

import GuideRig.Proofs.Telemetry.Batch
import GuideRig.Proofs.Telemetry.Documents

namespace GuideRig

open Ascii Json

namespace ActionCounts

/-- A map of the counts of two others, of which all names of one come before those of the other, has the
entries of the one and then those of the other. -/
theorem entries_of_union {a b both : ActionCounts}
    (apart : ∀ e ∈ a.entries, ∀ e' ∈ b.entries, nameBefore e.1 e'.1)
    (union : ∀ e, e ∈ both.entries ↔ e ∈ a.entries ∨ e ∈ b.entries) :
    both.entries = a.entries ++ b.entries := by
  have ordered : (a.entries ++ b.entries).Pairwise fun e e' => nameBefore e.1 e'.1 :=
    List.pairwise_append.mpr ⟨a.ordered, b.ordered, apart⟩
  apply List.Pairwise.eq_of_mem_iff both.ordered ordered
  intro e
  rw [union, List.mem_append]

end ActionCounts

namespace Batch

variable {actions : ActionCounts}

/-! ## The names of a batch -/

/-- The names of some entries, each as often as its count says. -/
def names (entries : List (String × UInt32)) : List String :=
  entries.flatMap fun e => List.replicate e.2.toNat e.1

theorem schedule_eq_names (actions : ActionCounts) : schedule actions = names actions.entries := rfl

theorem names_append (entries more : List (String × UInt32)) :
    names (entries ++ more) = names entries ++ names more := List.flatMap_append

theorem exists_entry_of_mem_names {entries : List (String × UInt32)} {name : String}
    (h : name ∈ names entries) : ∃ count, (name, count) ∈ entries := by
  obtain ⟨⟨other, count⟩, member, repeated⟩ := List.mem_flatMap.mp h
  obtain rfl := List.eq_of_mem_replicate repeated
  exact ⟨count, member⟩

/-- The block of a name: before it come lesser names only, and after it greater ones only. -/
theorem block_schedule {name : String} {count : UInt32} (h : (name, count) ∈ actions.entries) :
    ∃ before after, schedule actions = before ++ List.replicate count.toNat name ++ after ∧
      (∀ other ∈ before, nameBefore other name) ∧ ∀ other ∈ after, nameBefore name other := by
  obtain ⟨front, back, split⟩ := List.append_of_mem h
  have ordered := actions.ordered
  rw [split] at ordered
  obtain ⟨-, later, earlier⟩ := List.pairwise_append.mp ordered
  refine ⟨names front, names back, ?_, ?_, ?_⟩
  · rw [schedule_eq_names, split, names_append, List.append_assoc]
    rfl
  · intro other member
    obtain ⟨n, entry⟩ := exists_entry_of_mem_names member
    exact earlier _ entry _ List.mem_cons_self
  · intro other member
    obtain ⟨n, entry⟩ := exists_entry_of_mem_names member
    exact (List.pairwise_cons.mp later).1 _ entry

theorem schedule_of_union {a b both : ActionCounts}
    (apart : ∀ e ∈ a.entries, ∀ e' ∈ b.entries, nameBefore e.1 e'.1)
    (union : ∀ e, e ∈ both.entries ↔ e ∈ a.entries ∨ e ∈ b.entries) :
    schedule both = schedule a ++ schedule b := by
  rw [schedule_eq_names, ActionCounts.entries_of_union apart union, names_append]
  rfl

/-! ## The events of a batch -/

/-- What a batch lists for some counts, from a place in a stream of words on. -/
structure InBlocks (actions : ActionCounts) (window : Duration) (now : Instant) (w : Words)
    (es : List Event) : Prop where
  /-- The events of a name stand together and are as many as its count, after those of all names before it
  in the order of their bytes and before those of all names after it. -/
  block : ∀ name count, (name, count) ∈ actions.entries → ∃ before after,
    es.map Event.actionName = before ++ List.replicate count.toNat name ++ after ∧
      (∀ other ∈ before, nameBefore other name) ∧ ∀ other ∈ after, nameBefore name other
  /-- No event is of any other name. -/
  known : ∀ e ∈ es, ∃ count, (e.actionName, count) ∈ actions.entries
  /-- The flags and the tile are the same for all. -/
  plain : ∀ e ∈ es, e.isMobile = false ∧ e.isSubquery = false ∧ e.tileName = "-"
  /-- The time stamp of an event is a function of the window, its begin and the word at the same place. -/
  timed : ∀ i e, es[i]? = some e → e.timestamp = placed now window (w.stream (w.used + i))

/-- The events that are placed by the words at the places of a schedule are in blocks. -/
theorem inBlocks_schedule (actions : ActionCounts) (window : Duration) (now : Instant) (w : Words) :
    InBlocks actions window now w
      (((schedule actions).zipIdx w.used).map (eventAt now window w.stream)) := by
  have listed : (((schedule actions).zipIdx w.used).map (eventAt now window w.stream)).map
      Event.actionName = schedule actions := by
    rw [List.map_map]
    exact List.zipIdx_map_fst w.used (schedule actions)
  constructor
  · intro name count member
    rw [listed]
    exact block_schedule member
  · intro e member
    apply exists_entry_of_mem_names
    rw [← schedule_eq_names, ← listed]
    exact List.mem_map_of_mem member
  · intro e member
    obtain ⟨entry, -, rfl⟩ := List.mem_map.mp member
    exact ⟨rfl, rfl, rfl⟩
  · intro i e found
    rw [List.getElem?_map, List.getElem?_zipIdx] at found
    obtain ⟨⟨name, place⟩, entry, rfl⟩ := Option.map_eq_some_iff.mp found
    obtain ⟨_, -, same⟩ := Option.map_eq_some_iff.mp entry
    obtain ⟨-, rfl⟩ := Prod.mk.inj same
    rfl

/-- Two batches one after the other, the second from the words that the first has left, are the batch of
both schedules. -/
theorem generate_append {window : Duration} {now : Instant}
    (fits : millis now window.nanoseconds ≤ lastStamp) {a b both : ActionCounts}
    (joined : schedule both = schedule a ++ schedule b) (w : Words) :
    ∃ es es' left left', generate a window now w = (.ok es, left) ∧
      generate b window now left = (.ok es', left') ∧
      generate both window now w = (.ok (es ++ es'), left') := by
  refine ⟨_, _, _, _, generate_eq fits a w, generate_eq fits b _, ?_⟩
  rw [generate_eq fits, joined, List.zipIdx_append, List.map_append, List.length_append, Nat.add_assoc]

/-- Where a window is accepted at a reading of the clock, every map of counts gets its batch from every
stream of words, in blocks by name and with one word for each event. The batch of two maps, of which all
names of one come before those of the other, is the batch of the one and then, from the words that are
left, the batch of the other. The counts of a configuration may be written in any order: the batches of
what is loaded are the same. -/
theorem generate_blocks {window : Duration} {now : Instant}
    (fits : (now.toNat + window.nanoseconds) / 10 ^ 6 ≤ 2 ^ 63 - 1) :
    (∀ (actions : ActionCounts) (w : Words), ∃ es,
      generate actions window now w = (.ok es, ⟨w.stream, w.used + es.length⟩) ∧
        InBlocks actions window now w es) ∧
    (∀ (a b both : ActionCounts) (w : Words),
      (∀ e ∈ a.entries, ∀ e' ∈ b.entries, nameBefore e.1 e'.1) →
      (∀ e, e ∈ both.entries ↔ e ∈ a.entries ∨ e ∈ b.entries) →
      ∃ es es' left left', generate a window now w = (.ok es, left) ∧
        generate b window now left = (.ok es', left') ∧
        generate both window now w = (.ok (es ++ es'), left')) ∧
    ∀ (files : Files) (path : String) {tree : Json.Tree → Json.Tree}
      {entries entries' : List (List Piece × Json.Tree)} {doc doc' : Bytes} {c : Conf},
      FieldPlace Conf.actionsField [Conf.queriesField] tree → IsDocument (tree (.object entries)) doc →
      Conf.load (files.written path doc) path = .ok c → entries.Perm entries' →
      (entries.map fun e => text? e.1).Nodup → IsDocument (tree (.object entries')) doc' →
      ∃ c', Conf.load (files.written path doc') path = .ok c' ∧
        ∀ w, generate c'.actions window now w = generate c.actions window now w := by
  have accepted : millis now window.nanoseconds ≤ lastStamp := fits
  refine ⟨?_, ?_, ?_⟩
  · intro actions w
    refine ⟨_, ?_, inBlocks_schedule actions window now w⟩
    rw [generate_eq accepted, List.length_map, List.length_zipIdx]
  · intro a b both w apart union
    exact generate_append accepted (schedule_of_union apart union) w
  · intro files path tree entries entries' doc doc' c place isDocument loads perm distinct isDocument'
    exact ⟨c, Conf.load_of_perm place isDocument loads perm distinct isDocument', fun _ => rfl⟩

/-- Counts written against the order of their names, one of them zero, and a window of two seconds. -/
theorem generate_blocks_reversed :
    let window : Duration := ⟨2, 0⟩
    let now : Instant := 1700000000123456789
    let w := Words.ofSeed 7
    let a := ActionCounts.ofList [("hover", 0), ("click", 2)]
    let b := ActionCounts.ofList [("scroll", 1)]
    let both := ActionCounts.ofList [("scroll", 1), ("hover", 0), ("click", 2)]
    let files : Files := fun _ => .error .notFound
    let doc := bytes "\x7b\"queries\":[],\"actions\":\x7b\"a\":1,\"b\":2\x7d\x7d"
    let turned := bytes "\x7b\"queries\":[],\"actions\":\x7b\"b\":2,\"a\":1\x7d\x7d"
    (now.toNat + window.nanoseconds) / 10 ^ 6 ≤ 2 ^ 63 - 1 ∧
      (∃ es, generate both window now w = (.ok es, ⟨w.stream, w.used + es.length⟩) ∧
        InBlocks both window now w es) ∧
      (∃ es es' left left', generate a window now w = (.ok es, left) ∧
        generate b window now left = (.ok es', left') ∧
        generate both window now w = (.ok (es ++ es'), left')) ∧
      ∃ c c', Conf.load (files.written "bot.json" doc) "bot.json" = .ok c ∧
        Conf.load (files.written "bot.json" turned) "bot.json" = .ok c' ∧
        generate c'.actions window now w = generate c.actions window now w := by
  intro window now w a b both files doc turned
  have fits : (now.toNat + window.nanoseconds) / 10 ^ 6 ≤ 2 ^ 63 - 1 := by decide
  obtain ⟨batches, unions, orders⟩ := generate_blocks fits
  refine ⟨fits, batches both w, ?_, ?_⟩
  · have apart : ∀ e ∈ a.entries, ∀ e' ∈ b.entries, nameBefore e.1 e'.1 := by decide
    have split : both.entries = a.entries ++ b.entries := by decide
    apply unions a b both w apart
    intro e
    rw [split, List.mem_append]
  · have one : IsNumber (bytes "1") := (IsInteger.unsigned (show IsWhole (bytes "1") by decide)).isNumber
    have two : IsNumber (bytes "2") := (IsInteger.unsigned (show IsWhole (bytes "2") by decide)).isNumber
    let first : String × Json.Tree × Bytes := ("a", .number (bytes "1"), bytes "1")
    let second : String × Json.Tree × Bytes := ("b", .number (bytes "2"), bytes "2")
    have isDoc := @isDocument_countsText [first, second] (by simp [first, second])
      (List.forall_mem_cons.mpr ⟨.number one, List.forall_mem_singleton.mpr (.number two)⟩)
    have isTurned := @isDocument_countsText [second, first] (by simp [first, second])
      (List.forall_mem_cons.mpr ⟨.number two, List.forall_mem_singleton.mpr (.number one)⟩)
    have spelled : doc = countsText [first, second] ∧ turned = countsText [second, first] := by decide
    have place : FieldPlace Conf.actionsField [Conf.queriesField]
        fun t => .object ([(plainly "queries", .list [])] ++ (plainly "actions", t) :: []) :=
      .named (text?_plainly "actions")
    have names : (([first, second].map fun m => (plainly m.1, m.2.1)).map fun e => text? e.1).Nodup := by
      simp [first, second, text?_plainly]
    have loads : Conf.load (files.written "bot.json" doc) "bot.json" =
        .ok ⟨[], .ofList [("a", 1), ("b", 2)]⟩ := by
      have digits : decimal 1 = bytes "1" ∧ decimal 2 = bytes "2" :=
        ⟨decimal_of_lt (by decide), decimal_of_lt (by decide)⟩
      have written : doc = Conf.write ⟨[], .ofList [("a", 1), ("b", 2)]⟩ := by
        rw [spelled.1]
        show countsText [("a", .number (bytes "1"), bytes "1"), ("b", .number (bytes "2"), bytes "2")] = _
        rw [← digits.1, ← digits.2]
        rfl
      simp only [Conf.load, Files.bytes_written, written, Conf.read_write]
    rw [spelled.1] at loads ⊢
    rw [spelled.2]
    obtain ⟨c', loads', same⟩ := orders files "bot.json" place isDoc loads (.swap _ _ []) names isTurned
    exact ⟨_, c', loads, loads', same w⟩

end Batch

end GuideRig
