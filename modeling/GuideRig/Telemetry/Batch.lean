/-
# GuideRig.Telemetry.Batch -- the events of one iteration

A batch holds, for every action in order, as many events as its count says. Each event takes one
random word, which places it in the window that begins now; the rest of the event is the same for
all. Whether the end of the window can be told in milliseconds is settled before any word is drawn,
and since no event lies past that end, no event can fail on its own.
-/

import GuideRig.Duration
import GuideRig.Random
import GuideRig.Telemetry.ActionCounts
import GuideRig.Telemetry.Event

namespace GuideRig

/-- Why a bot or a batch cannot be set up. -/
inductive SetupFault where
  /-- There is nothing to search for. -/
  | noQueries
  /-- The end of the window is past the last time stamp. -/
  | windowTooLarge (window : Duration)
  deriving DecidableEq

/-- The fault in words. -/
def SetupFault.message : SetupFault → String
  | noQueries => "no queries to choose from"
  | windowTooLarge w => "telemetry window of " ++ toString w.secs.toNat ++ "s is too large"

namespace Batch

/-- The largest time stamp. -/
def lastStamp : Nat := twoTo 63 - 1

/-- The time stamp of a place in time: whole milliseconds since the epoch, if they fit. -/
def stamp? (now offset : Duration) : Option Int64 :=
  match now.add? offset with
  | none => none
  | some at_ => if at_.milliseconds ≤ lastStamp then some (Int64.ofNat at_.milliseconds) else none

/-- The time stamp at which a window ends. -/
def windowEnd (now window : Duration) : Except SetupFault Int64 :=
  match stamp? now window with
  | some t => .ok t
  | none => .error (.windowTooLarge window)

/-- The offset into a window that a fraction of it stands for: the product with the window's length in
seconds, in whole nanoseconds. -/
def offset? (window : Duration) (fraction : Binary64) : Option Duration :=
  Duration.ofSeconds? (window.seconds.mul fraction)

/-- The time stamp that a fraction of the window stands for. -/
def eventStamp (now window : Duration) (fraction : Binary64) : Except SetupFault Int64 :=
  match (offset? window fraction).bind (stamp? now) with
  | some t => .ok t
  | none => .error (.windowTooLarge window)

/-- The one tile that events name. -/
def tile : String := "-"

/-- The event of an action at a time. -/
def event (action : String) (timestamp : Int64) : Event := ⟨action, false, false, tile, timestamp⟩

/-- Events for a list of action names, one word each. -/
def events (now window : Duration) : List String → Words → Except SetupFault (List Event) × Words
  | [], w => (.ok [], w)
  | action :: rest, w =>
    let (fraction, w) := w.fraction
    match eventStamp now window fraction with
    | .error e => (.error e, w)
    | .ok t =>
      match events now window rest w with
      | (.error e, w) => (.error e, w)
      | (.ok es, w) => (.ok (event action t :: es), w)

/-- The action names of a batch, each as often as its count says. -/
def schedule (actions : ActionCounts) : List String :=
  actions.entries.flatMap fun (name, count) => List.replicate count.toNat name

/-- The batch of an iteration that starts at a reading of the clock. -/
def generate (actions : ActionCounts) (window : Duration) (now : Instant) (w : Words) :
    Except SetupFault (List Event) × Words :=
  let now := Duration.sinceEpoch now
  match windowEnd now window with
  | .error e => (.error e, w)
  | .ok _ => events now window (schedule actions) w

end Batch

end GuideRig
