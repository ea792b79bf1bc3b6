/-
# GuideRig.Telemetry.Event -- one simulated interaction

An event names an action and a tile, carries two flags and the time in milliseconds since the epoch.
As JSON it is an object of five fields; a batch of events is an object whose only field is the list
of them.
-/

import GuideRig.Json.Machine
import GuideRig.Json.Printer

namespace GuideRig

open Json

/-- One simulated interaction of a user. -/
structure Event where
  actionName : String
  isMobile : Bool
  isSubquery : Bool
  tileName : String
  /-- Milliseconds since the epoch. -/
  timestamp : Int64
  deriving DecidableEq

namespace Event

/-- What an event is read for. -/
def record : Record :=
  ⟨"Telemetry", [⟨"actionName", .text, none⟩, ⟨"isMobile", .flag, none⟩,
    ⟨"isSubquery", .flag, none⟩, ⟨"tileName", .text, none⟩, ⟨"timestamp", .whole .i64, none⟩]⟩

/-- The event of a record's fields. -/
def ofFields : List Datum → Event
  | [.text action, .flag mobile, .flag sub, .text tile, .whole t] =>
    ⟨action, mobile, sub, tile, Int64.ofInt t⟩
  | _ => ⟨"", false, false, "", 0⟩

/-- The fields of an event. -/
def toDatum (e : Event) : Datum :=
  .map [("actionName", .text e.actionName), ("isMobile", .flag e.isMobile),
    ("isSubquery", .flag e.isSubquery), ("tileName", .text e.tileName),
    ("timestamp", .whole e.timestamp.toInt)]

/-- Reads an event. -/
def read (doc : Bytes) : Except Report Event :=
  match record.read doc with
  | .ok fields => .ok (ofFields fields)
  | .error f => .error (f.report doc)

/-- An event as JSON. -/
def write (e : Event) : Bytes := e.toDatum.write

/-- A batch of events as JSON. -/
def writeBatch (events : List Event) : Bytes :=
  (Datum.map [("telemetry", .list (events.map toDatum))]).write

end Event

end GuideRig
