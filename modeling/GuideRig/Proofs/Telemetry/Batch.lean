/-
# GuideRig.Proofs.Telemetry.Batch -- batches in closed form, and where their time stamps lie

Whether there is a batch is decided by the end of the window alone, before any word is drawn
(`windowEnd_eq`). Since no offset passes the window, no event can fail after that, and a batch is one
event for each entry of the schedule, placed by the word at the same position of the stream
(`generate_eq`). `generate_within_window` puts both together for every reading and every window.
-/

import GuideRig.Proofs.Telemetry.Offset

namespace GuideRig

namespace Batch

/-! ## Time stamps -/

/-- The whole milliseconds from the epoch to a place so many nanoseconds after a reading. -/
def millis (now : Instant) (ns : ℕ) : ℕ := (now.toNat + ns) / 1000000

theorem millis_mono (now : Instant) {a b : ℕ} (h : a ≤ b) : millis now a ≤ millis now b :=
  Nat.div_le_div_right (Nat.add_le_add_left h _)

/-- A place has a time stamp exactly when its milliseconds are at most the last one; that they fit a
span of time is then no further condition. -/
theorem stamp?_sinceEpoch (now : Instant) (offset : Duration) :
    stamp? (Duration.sinceEpoch now) offset =
      if millis now offset.nanoseconds ≤ lastStamp then
        some (Int64.ofNat (millis now offset.nanoseconds))
      else none := by
  have last : lastStamp = 2 ^ 63 - 1 := rfl
  by_cases reading : now.toNat / Duration.perSecond < twoTo 64
  · have held := Duration.nanoseconds_sinceEpoch reading
    simp only [stamp?, Duration.add?, held]
    by_cases sum : (now.toNat + offset.nanoseconds) / Duration.perSecond < twoTo 64
    · obtain ⟨d, some_d, length⟩ := Duration.exists_ofNanoseconds? sum
      simp only [some_d, Duration.milliseconds, length]
      rfl
    · rw [Duration.ofNanoseconds?, if_neg sum, if_neg]
      rw [twoTo_eq, Duration.perSecond] at sum
      rw [millis, last]
      omega
  -- a reading that no span holds is past the last time stamp by itself
  · have long := Duration.le_nanoseconds_sinceEpoch reading
    have none_millis : ¬ millis now offset.nanoseconds ≤ lastStamp := by
      rw [twoTo_eq, Duration.perSecond] at reading
      rw [millis, last]
      omega
    rw [if_neg none_millis, stamp?, Duration.add?]
    rw [twoTo_eq] at long
    by_cases sum : ((Duration.sinceEpoch now).nanoseconds + offset.nanoseconds) /
        Duration.perSecond < twoTo 64
    · obtain ⟨d, some_d, length⟩ := Duration.exists_ofNanoseconds? sum
      simp only [some_d, Duration.milliseconds, length]
      rw [if_neg (by rw [last]; omega)]
    · rw [Duration.ofNanoseconds?, if_neg sum]

/-- The end of a window can be told, or its length is the fault. -/
theorem windowEnd_eq (now : Instant) (window : Duration) :
    windowEnd (Duration.sinceEpoch now) window =
      if millis now window.nanoseconds ≤ lastStamp then
        .ok (Int64.ofNat (millis now window.nanoseconds))
      else .error (.windowTooLarge window) := by
  rw [windowEnd, stamp?_sinceEpoch]
  by_cases fits : millis now window.nanoseconds ≤ lastStamp
  · rw [if_pos fits, if_pos fits]
  · rw [if_neg fits, if_neg fits]

/-! ## Events -/

/-- How far into a window a word places its event, in nanoseconds. -/
def offsetNanos (window : Duration) (word : UInt64) : ℕ :=
  roundDiv (Duration.perSecond * (window.seconds.mul (Words.fractionOf word)).units) Binary64.one

theorem isOffset_offsetNanos (window : Duration) (word : UInt64) :
    IsOffset window word (offsetNanos window word) := by
  obtain ⟨s, f, hs, hf, hw⟩ := window.roundsTo_seconds
  have hp := Binary64.roundsTo_mul window.seconds (Words.fractionOf word)
  rw [Words.value_fractionOf] at hp
  refine ⟨s, f, _, _, hs, hf, hw, hp, ?_⟩
  have one_pos : 0 < Binary64.one := by exact_mod_cast Binary64.one_pos
  have whole := roundDiv_nearest
    (Duration.perSecond * (window.seconds.mul (Words.fractionOf word)).units) one_pos
  push_cast at whole
  rw [mul_div_assoc, mul_comm, show (Duration.perSecond : ℚ) = 10 ^ 9 by norm_num [Duration.perSecond]]
    at whole
  exact whole

theorem offsetNanos_le (window : Duration) (word : UInt64) :
    offsetNanos window word ≤ window.nanoseconds := (isOffset_offsetNanos window word).le

/-- The offset of a word is always a span of time. -/
theorem exists_offset? (window : Duration) (word : UInt64) :
    ∃ d, offset? window (Words.fractionOf word) = some d ∧
      d.nanoseconds = offsetNanos window word :=
  Duration.exists_ofNanoseconds? <| lt_of_le_of_lt
    (Nat.div_le_div_right (offsetNanos_le window word)) window.nanoseconds_div_lt

/-- The time stamp of the event of a word. -/
def placed (now : Instant) (window : Duration) (word : UInt64) : Int64 :=
  Int64.ofNat (millis now (offsetNanos window word))

/-- Where the window has an end, every word has a time stamp. -/
theorem eventStamp_eq {now : Instant} {window : Duration}
    (fits : millis now window.nanoseconds ≤ lastStamp) (word : UInt64) :
    eventStamp (Duration.sinceEpoch now) window (Words.fractionOf word) =
      .ok (placed now window word) := by
  obtain ⟨d, some_d, length⟩ := exists_offset? window word
  have le := millis_mono now (offsetNanos_le window word)
  rw [eventStamp, some_d, Option.bind_some, stamp?_sinceEpoch, length, if_pos (le.trans fits)]
  rfl

/-- The time stamp is the one that `placed` was made from. -/
theorem toInt_placed {now : Instant} {window : Duration}
    (fits : millis now window.nanoseconds ≤ lastStamp) (word : UInt64) :
    (placed now window word).toInt = millis now (offsetNanos window word) := by
  have le := millis_mono now (offsetNanos_le window word)
  have last : lastStamp = 2 ^ 63 - 1 := rfl
  exact Int64.toInt_ofNat_of_lt (by omega)

/-! ## Batches -/

/-- The event of a place in the stream. -/
def eventAt (now : Instant) (window : Duration) (stream : ℕ → UInt64) (entry : String × ℕ) : Event :=
  event entry.1 (placed now window (stream entry.2))

/-- The events of a list of names, each placed by a word of its own. -/
theorem events_eq {now : Instant} {window : Duration}
    (fits : millis now window.nanoseconds ≤ lastStamp) (names : List String) (w : Words) :
    events (Duration.sinceEpoch now) window names w =
      (.ok ((names.zipIdx w.used).map (eventAt now window w.stream)),
        ⟨w.stream, w.used + names.length⟩) := by
  -- each name takes the next word, so the places in the stream count on with the list
  induction names generalizing w with
  | nil => rfl
  | cons name rest ih =>
    simp only [events, Words.fraction_eq, eventStamp_eq fits, ih, List.zipIdx_cons, List.map_cons,
      List.length_cons]
    simp only [Words.next, Words.word, eventAt, Nat.add_assoc, Nat.add_comm 1]

/-- A batch whose window has no end: the fault, and no word is drawn. -/
theorem generate_eq_error {now : Instant} {window : Duration}
    (late : ¬ millis now window.nanoseconds ≤ lastStamp) (actions : ActionCounts) (w : Words) :
    generate actions window now w = (.error (.windowTooLarge window), w) := by
  rw [generate, windowEnd_eq, if_neg late]

/-- A batch whose window has an end: one event for each entry of the schedule. -/
theorem generate_eq {now : Instant} {window : Duration}
    (fits : millis now window.nanoseconds ≤ lastStamp) (actions : ActionCounts) (w : Words) :
    generate actions window now w =
      (.ok (((schedule actions).zipIdx w.used).map (eventAt now window w.stream)),
        ⟨w.stream, w.used + (schedule actions).length⟩) := by
  rw [generate, windowEnd_eq, if_pos fits]
  exact events_eq fits _ w

/-- A batch has as many events as the counts add up to. -/
theorem length_schedule (actions : ActionCounts) : (schedule actions).length = actions.total := by
  rw [schedule, ActionCounts.total]
  induction actions.entries with
  | nil => rfl
  | cons entry rest ih =>
    rw [List.flatMap_cons, List.length_append, List.length_replicate, ih]
    rfl

theorem exists_generate {now : Instant} {window : Duration}
    (fits : millis now window.nanoseconds ≤ lastStamp) (actions : ActionCounts) (w : Words) :
    ∃ es w', generate actions window now w = (.ok es, w') ∧ es.length = actions.total := by
  refine ⟨_, _, generate_eq fits actions w, ?_⟩
  rw [List.length_map, List.length_zipIdx, length_schedule]

/-- For every reading of the clock (one before the epoch counting as the epoch), window, action map and
stream of words: either the milliseconds at the end of the window exceed the last time stamp, and the
window is refused with no word drawn, or there is a batch of as many events as the counts add up to.
The event at a position is then placed by the word at that position, at an offset computed in doubles,
and no time stamp lies before the begin of the window or after its end. -/
theorem generate_within_window (actions : ActionCounts) (window : Duration) (now : Instant)
    (w : Words) :
    (2 ^ 63 - 1 < (now.toNat + window.nanoseconds) / 10 ^ 6 ∧
      generate actions window now w = (.error (.windowTooLarge window), w)) ∨
    ((now.toNat + window.nanoseconds) / 10 ^ 6 ≤ 2 ^ 63 - 1 ∧
      ∃ es, generate actions window now w = (.ok es, ⟨w.stream, w.used + actions.total⟩) ∧
        es.length = actions.total ∧
        ∀ (i : ℕ) (e : Event), es[i]? = some e → ∃ ns, IsOffset window (w.stream (w.used + i)) ns ∧
          e.timestamp.toInt = ((now.toNat + ns) / 10 ^ 6 : ℕ) ∧
          ((now.toNat / 10 ^ 6 : ℕ) : ℤ) ≤ e.timestamp.toInt ∧
          e.timestamp.toInt ≤ ((now.toNat + window.nanoseconds) / 10 ^ 6 : ℕ)) := by
  by_cases fits : millis now window.nanoseconds ≤ lastStamp
  · refine .inr ⟨fits, ((schedule actions).zipIdx w.used).map (eventAt now window w.stream),
      ?_, ?_, ?_⟩
    · rw [generate_eq fits, length_schedule]
    · rw [List.length_map, List.length_zipIdx, length_schedule]
    · intro i e found
      rw [List.getElem?_map, List.getElem?_zipIdx] at found
      obtain ⟨⟨name, j⟩, entry, rfl⟩ := Option.map_eq_some_iff.mp found
      obtain ⟨_, -, place⟩ := Option.map_eq_some_iff.mp entry
      obtain ⟨-, rfl⟩ := Prod.mk.inj place
      have stamp := toInt_placed fits (w.stream (w.used + i))
      refine ⟨_, isOffset_offsetNanos window _, stamp, ?_, ?_⟩
      · rw [eventAt, event, stamp]
        exact_mod_cast millis_mono now (Nat.zero_le _)
      · rw [eventAt, event, stamp]
        exact_mod_cast millis_mono now (offsetNanos_le window _)
  · exact .inl ⟨Nat.lt_of_not_le fits, generate_eq_error fits actions w⟩

end Batch

end GuideRig
