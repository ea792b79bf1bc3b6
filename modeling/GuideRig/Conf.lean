/-
# GuideRig.Conf -- the configuration of a bot

A configuration lists the terms a bot searches for and how many events of each action it reports in
every iteration. It is kept as JSON: an object with the fields `queries` and `actions`, or the list
of the two; `actions` may be left out of either.
-/

import GuideRig.Json.Machine
import GuideRig.Json.Printer
import GuideRig.Telemetry.ActionCounts

namespace GuideRig

open Json

/-- What a bot searches for and reports. -/
structure Conf where
  queries : List String
  actions : ActionCounts
  deriving DecidableEq

namespace Conf

/-- What a configuration is read for. -/
def record : Record :=
  ⟨"Conf", [⟨"queries", .list .text, none⟩, ⟨"actions", .map (.whole .u32), some (.map [])⟩]⟩

/-! ## The two fields as data -/

/-- The text of a datum that is one. -/
def textOf : Datum → String
  | .text s => s
  | _ => ""

/-- The count of a datum that is a number. -/
def countOf : Datum → UInt32
  | .whole v => UInt32.ofNat v.toNat
  | _ => 0

/-- The queries of a datum that is a list. -/
def queriesOf : Datum → List String
  | .list items => items.map textOf
  | _ => []

/-- The action counts of a datum that is a map. -/
def actionsOf : Datum → ActionCounts
  | .map entries => ActionCounts.ofList (entries.map fun (name, d) => (name, countOf d))
  | _ => ActionCounts.empty

/-- The configuration of a record's fields. -/
def ofFields : List Datum → Conf
  | [queries, actions] => ⟨queriesOf queries, actionsOf actions⟩
  | _ => ⟨[], ActionCounts.empty⟩

/-- The fields of a configuration. -/
def toDatum (c : Conf) : Datum :=
  .map [("queries", .list (c.queries.map .text)),
    ("actions", .map (c.actions.entries.map fun (name, n) => (name, .whole n.toNat)))]

/-! ## Reading and writing -/

/-- Reads a configuration. -/
def read (doc : Bytes) : Except Report Conf :=
  match record.read doc with
  | .ok fields => .ok (ofFields fields)
  | .error f => .error (f.report doc)

/-- A configuration as JSON. -/
def write (c : Conf) : Bytes := c.toDatum.write

end Conf

end GuideRig
