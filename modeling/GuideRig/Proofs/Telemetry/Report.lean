/-
# GuideRig.Proofs.Telemetry.Report -- what a report tells

The body of a report is one object of one key, and its value is a list. `IsBatch` says which events such a
body tells: those that its items are read as, one by one and in order. The reader of an event and the
writer of a batch meet in `Event.read_write`, and since a text is an object or a list in one way only, a
batch tells the events that it was written from and no others (`isBatch_writeBatch`).
-/

import GuideRig.Proofs.Json.Record
import GuideRig.Proofs.Json.Unambiguity
import GuideRig.Proofs.Telemetry.Run

namespace GuideRig

open Json

namespace Event

/-! ## One event -/

/-- The data of the fields of an event. -/
def fieldData (e : Event) : List Datum :=
  [.text e.actionName, .flag e.isMobile, .flag e.isSubquery, .text e.tileName,
    .whole e.timestamp.toInt]

theorem toDatum_eq (e : Event) : e.toDatum = .map (fieldEntries record.fields e.fieldData) := rfl

theorem ofFields_fieldData (e : Event) : ofFields e.fieldData = e := by
  rw [fieldData, ofFields, Int64.ofInt_toInt]

/-- A time stamp is in the range that it is read for. -/
theorem holds_stamp (t : Int64) : Shape.Holds (.whole .i64) (.whole t.toInt) := by
  have low := t.le_toInt
  have high := t.toInt_lt
  have least : WholeRange.i64.low = -(twoTo 63 : Int) := rfl
  have most : WholeRange.i64.high = twoTo 63 - 1 := rfl
  have signed : twoTo 63 = 9223372036854775808 := rfl
  have unsigned : twoTo 64 = 18446744073709551616 := rfl
  rw [Shape.Holds, least, most]
  omega

/-- An event is read back from its JSON. -/
theorem read_write (e : Event) : read e.write = .ok e := by
  have holds : List.Forall₂ (fun f d => f.shape.Holds d) record.fields e.fieldData :=
    .cons trivial (.cons trivial (.cons trivial (.cons trivial (.cons (holds_stamp _) .nil))))
  have fields : record.read e.write = .ok e.fieldData := by
    rw [write, toDatum_eq]
    exact Record.read_write (by decide) holds
  simp only [read, fields, ofFields_fieldData]

/-! ## Batches -/

/-- A body is an object with the key `telemetry` alone, and its value is a list whose items are read, one
by one and in order, as the events. -/
def IsBatch (body : Bytes) (events : List Event) : Prop :=
  ∃ list items, IsObject body [(Ascii.bytes "\"telemetry\"", list)] ∧ IsList list items ∧
    items.map read = events.map .ok

/-- A body is a batch of one list of events only. -/
theorem IsBatch.unique {body : Bytes} {events events' : List Event} (h : IsBatch body events)
    (h' : IsBatch body events') : events = events' := by
  obtain ⟨list, items, object, isList, told⟩ := h
  obtain ⟨list', items', object', isList', told'⟩ := h'
  obtain ⟨member, -⟩ := List.cons.inj (object.unique object')
  obtain ⟨-, rfl⟩ := Prod.mk.inj member
  obtain rfl := isList.unique isList'
  have injective : Function.Injective (Except.ok : Event → Except Report Event) :=
    fun _ _ same => Except.ok.inj same
  exact injective.list_map (told.symm.trans told')

/-- The batch of some events. -/
theorem isBatch_writeBatch (events : List Event) : IsBatch (writeBatch events) events := by
  have key : quote "telemetry" = Ascii.bytes "\"telemetry\"" := by decide
  have object := isObject_write [("telemetry", .list (events.map toDatum))]
  rw [List.map_singleton, key] at object
  refine ⟨_, _, object, isList_write (events.map toDatum), ?_⟩
  rw [List.map_map, List.map_map]
  exact List.map_congr_left fun e _ => read_write e

end Event

/-! ## Posting a batch -/

namespace Bot

/-- What a report of events is asked to do. -/
def reportTask (bot : Bot) (events : List Event) : Task :=
  ⟨.post, bot.reportUrl, [jsonField, bot.cookieField], Event.writeBatch events⟩

variable {bot : Bot} {events : List Event}

/-- A request that leaves for a report carries the batch of its events. -/
theorem eq_of_reported {answer : Answer} {r : Request} {result : Except Error Unit}
    (h : Attempted (bot.reportTask events) answer (some r) result) :
    r.method = .post ∧ r.body = Event.writeBatch events := by
  obtain ⟨url, -, built⟩ := h.built
  rw [Exchange.eq_of_build built]
  exact ⟨rfl, rfl⟩

theorem attempted_sendTelemetry (bot : Bot) (backend : Backend) (events : List Event) (p : Progress) :
    ∃ sent, Attempted (bot.reportTask events) (backend p.tried) sent
        (bot.sendTelemetry backend events p).1 ∧
      (bot.sendTelemetry backend events p).2.sent = p.sent ++ sent.toList := by
  obtain ⟨fault, made, out⟩ | ⟨url, q, made, tried, sent, out⟩ := bot.sendTelemetry_cases events p
  · rw [out]
    exact ⟨none, .unresolved made, (List.append_nil p.sent).symm⟩
  · have task : (bot.reportTask events).url = .ok url := made
    obtain ⟨request, attempt, added, -⟩ := attempted_exchange task backend q "Telemetry sent"
    rw [tried] at attempt
    rw [sent] at added
    rw [out]
    exact ⟨request, attempt, added⟩

/-- A report posts at most one body, and one whenever it succeeds. The body is a batch that tells the
events of the report and no others, and no other events are written as it. -/
theorem sendTelemetry_posts (bot : Bot) (backend : Backend) (events : List Event) (p : Progress) :
    ∃ posted : Option Request,
      (bot.sendTelemetry backend events p).2.sent = p.sent ++ posted.toList ∧
      ((bot.sendTelemetry backend events p).1 = .ok () → posted.isSome) ∧
      ∀ r ∈ posted, r.method = .post ∧ r.body = Event.writeBatch events ∧
        (∀ told, Event.IsBatch r.body told ↔ told = events) ∧
        ∀ other, Event.writeBatch other = r.body → other = events := by
  obtain ⟨posted, attempt, sent⟩ := attempted_sendTelemetry bot backend events p
  refine ⟨posted, sent, ?_, ?_⟩
  · intro done
    rw [done] at attempt
    obtain ⟨-, request, rfl⟩ := attempt.of_ok
    rfl
  · rintro r ⟨⟩
    obtain ⟨method, body⟩ := eq_of_reported attempt
    have batch : Event.IsBatch r.body events := body ▸ Event.isBatch_writeBatch events
    refine ⟨method, body, ?_, ?_⟩
    · intro told
      exact ⟨fun h => h.unique batch, fun same => same ▸ batch⟩
    · intro other same
      have told : Event.IsBatch r.body other := same ▸ Event.isBatch_writeBatch other
      exact told.unique batch

end Bot

end GuideRig
