/-
# GuideRig.Duration -- spans of time and their length in seconds

A span is a number of whole seconds in 64 bits and a number of nanoseconds below one second.
`seconds` is its length as a double, computed in the order in which every user of it computes it:
seconds and nanoseconds are converted apart, the nanoseconds divided by 10^9, and the two added,
each step rounded.
-/

import GuideRig.Number.Shortest

namespace GuideRig

/-- A span of time. -/
structure Duration where
  secs : UInt64
  nanos : Fin 1000000000
  deriving DecidableEq, Repr

namespace Duration

/-- No time at all. -/
def zero : Duration := ⟨0, 0⟩

/-- The nanoseconds in a second. -/
def perSecond : Nat := 1000000000

/-- The span in nanoseconds. -/
def nanoseconds (d : Duration) : Nat := perSecond * d.secs.toNat + d.nanos.val

/-- The span of a number of nanoseconds that fits. -/
def ofNanoseconds? (n : Nat) : Option Duration :=
  if n / perSecond < twoTo 64 then
    some ⟨(n / perSecond).toUInt64, ⟨n % perSecond, Nat.mod_lt _ (by decide)⟩⟩
  else none

/-- The sum, if it fits. -/
def add? (a b : Duration) : Option Duration := ofNanoseconds? (a.nanoseconds + b.nanoseconds)

/-- The whole milliseconds in the span. -/
def milliseconds (d : Duration) : Nat := d.nanoseconds / 1000000

/-- The span's length in seconds as a double. -/
def seconds (d : Duration) : Binary64 :=
  (Binary64.ofNat d.secs.toNat).add
    ((Binary64.ofNat d.nanos.val).div (Binary64.ofNat perSecond))

/-- The span nearest to a number of seconds, in whole nanoseconds, a tie going to the even one. -/
def ofSeconds? (s : Binary64) : Option Duration :=
  ofNanoseconds? (roundDiv (perSecond * s.units) Binary64.one)

/-- The span in seconds as it is shown: positional digits, as few as read back. -/
def text (d : Duration) : String := Ascii.text (d.seconds.text .plain)

end Duration

/-- A reading of the clock: nanoseconds since the epoch, negative before it. -/
abbrev Instant := Int

/-- The span from the epoch to a reading; readings before the epoch count as the epoch itself, and
readings no span can express as the longest span. -/
def Duration.sinceEpoch (now : Instant) : Duration :=
  (ofNanoseconds? now.toNat).getD ⟨0xFFFFFFFFFFFFFFFF, ⟨999999999, by decide⟩⟩

end GuideRig
