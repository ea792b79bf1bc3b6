/-
# GuideRig.Calendar -- readings of the clock as dates

Days are counted from the epoch and put into the calendar by cycles of 400 years, each taken to begin
in March so that a leap day is the last day of its year. A reading is written in two ways: as a log
line begins, and as the date field of a response has it.
-/

import GuideRig.Duration

namespace GuideRig

/-- A day of the calendar. Months and days count from one. -/
structure Date where
  year : Int
  month : Nat
  day : Nat
  deriving DecidableEq, Repr

namespace Date

/-- The days in 400 years. -/
def perCycle : Int := 146097

/-- The days from the begin of a cycle to the epoch. -/
def beforeEpoch : Int := 719468

/-- The year of a cycle that a day of the cycle is in. -/
def yearInCycle (day : Nat) : Nat := (day - day / 1460 + day / 36524 - day / 146096) / 365

/-- The days of a cycle before a year of the cycle. -/
def daysBefore (year : Nat) : Nat := 365 * year + year / 4 - year / 100

/-- The days before a month of a year that begins in March. -/
def daysBeforeMonth (month : Nat) : Nat := (153 * month + 2) / 5

/-- The date of a day that is counted from the epoch. -/
def ofDays (days : Int) : Date :=
  let shifted := days + beforeEpoch
  let day := (shifted % perCycle).toNat
  let year := yearInCycle day
  let dayOfYear := day - daysBefore year
  let month := (5 * dayOfYear + 2) / 153
  let isLate := 10 ≤ month
  ⟨shifted / perCycle * 400 + year + (if isLate then 1 else 0),
    if isLate then month - 9 else month + 3, dayOfYear - daysBeforeMonth month + 1⟩

end Date

namespace Instant

/-- The nanoseconds in a day. -/
def perDay : Int := 86400 * Duration.perSecond

/-- The day of a reading, counted from the epoch. -/
def days (i : Instant) : Int := i / perDay

/-- The nanoseconds since the begin of the day. -/
def timeOfDay (i : Instant) : Nat := (i % perDay).toNat

/-- A number with zeros in front, up to a number of digits. -/
def padded (digits n : Nat) : String :=
  let s := toString n
  String.ofList (List.replicate (digits - s.length) '0') ++ s

/-- Hours, minutes and seconds of a reading. -/
def clockText (i : Instant) : String :=
  let s := timeOfDay i / Duration.perSecond
  padded 2 (s / 3600) ++ ":" ++ padded 2 (s / 60 % 60) ++ ":" ++ padded 2 (s % 60)

/-- A reading as a log line begins, down to the microsecond. -/
def stamp (i : Instant) : String :=
  let d := Date.ofDays (days i)
  padded 4 d.year.toNat ++ "-" ++ padded 2 d.month ++ "-" ++ padded 2 d.day ++ "T" ++ clockText i ++
    "." ++ padded 6 (timeOfDay i % Duration.perSecond / 1000) ++ "Z"

/-- The days of the week, beginning with that of the epoch. -/
def dayNames : List String := ["Thu", "Fri", "Sat", "Sun", "Mon", "Tue", "Wed"]

/-- The months. -/
def monthNames : List String :=
  ["Jan", "Feb", "Mar", "Apr", "May", "Jun", "Jul", "Aug", "Sep", "Oct", "Nov", "Dec"]

/-- A reading as the date field of a response has it. -/
def dateField (i : Instant) : String :=
  let d := Date.ofDays (days i)
  dayNames.getD (days i % 7).toNat "" ++ ", " ++ padded 2 d.day ++ " " ++
    monthNames.getD (d.month - 1) "" ++ " " ++ padded 4 d.year.toNat ++ " " ++ clockText i ++ " GMT"

end Instant

end GuideRig
