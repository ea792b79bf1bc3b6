/-
# GuideRig.Proofs.Telemetry.Order -- the batches of a run follow each other in time

An event of a batch is placed in the window that begins at the batch's reading of the clock: not before
its first millisecond, not after its last (`Batch.stamp_bounds`). Both ends are rounded down from sums of
nanoseconds, so a reading that is at or after the end of a window begins in no earlier millisecond than
the window ends in (`Batch.millis_le_millis`). Where every reading waits for the window of the one before
it, the batches of a run are therefore in order (`run_in_order`).
-/

import GuideRig.Proofs.Telemetry.Halves
import GuideRig.Proofs.Telemetry.Report

namespace GuideRig

namespace Batch

/-- No event of a batch lies outside of the window of its reading. -/
theorem stamp_bounds {actions : ActionCounts} {window : Duration} {now : Instant} {w w' : Words}
    {es : List Event} (generated : generate actions window now w = (.ok es, w')) {e : Event}
    (listed : e ∈ es) :
    (millis now 0 : ℤ) ≤ e.timestamp.toInt ∧ e.timestamp.toInt ≤ millis now window.nanoseconds := by
  by_cases fits : millis now window.nanoseconds ≤ lastStamp
  · rw [generate_eq fits] at generated
    obtain ⟨rfl⟩ := Except.ok.inj (Prod.mk.inj generated).1
    obtain ⟨⟨name, place⟩, -, rfl⟩ := List.mem_map.mp listed
    show (millis now 0 : ℤ) ≤ (placed now window (w.stream place)).toInt ∧
      (placed now window (w.stream place)).toInt ≤ millis now window.nanoseconds
    rw [toInt_placed fits]
    constructor
    · exact_mod_cast millis_mono now (Nat.zero_le _)
    · exact_mod_cast millis_mono now (offsetNanos_le window _)
  · rw [generate_eq_error fits] at generated
    cases generated

/-- A batch that there is holds as many events as the counts add up to. -/
theorem length_of_generate {actions : ActionCounts} {window : Duration} {now : Instant} {w w' : Words}
    {es : List Event} (generated : generate actions window now w = (.ok es, w')) :
    es.length = actions.total := by
  by_cases fits : millis now window.nanoseconds ≤ lastStamp
  · obtain ⟨_, _, made, counted⟩ := exists_generate fits actions w
    obtain ⟨⟨⟩⟩ := made.symm.trans generated
    exact counted
  · rw [generate_eq_error fits] at generated
    cases generated

/-- A reading at or after the end of a window begins in no earlier millisecond than the window ends in. -/
theorem millis_le_millis {now later : ℤ} {ns : ℕ} (epoch : 0 ≤ now) (waited : now + ns ≤ later) :
    millis now ns ≤ millis later 0 := by
  unfold millis
  apply Nat.div_le_div_right
  omega

end Batch

namespace Bot

variable {bot : Bot} {clock : ℕ → Instant}

/-- Readings that each wait for a window wait for it however far they are apart. -/
theorem waited {clock : ℕ → ℤ} {window k j : ℕ} (before : k < j)
    (paused : ∀ i, k ≤ i → i < j → clock i + window ≤ clock (i + 1)) : clock k + window ≤ clock j := by
  induction j with
  | zero => exact absurd before (Nat.not_lt_zero k)
  | succ j ih =>
    have last := paused j (by omega) (by omega)
    rcases Nat.lt_or_eq_of_le (Nat.le_of_lt_succ before) with earlier | rfl
    · have first := ih earlier fun i low high => paused i low (by omega)
      omega
    · exact last

/-- The requests of odd numbers are the reports, and each tells events of the window of its reading. -/
theorem IsSentBy.batch {k : ℕ} {r : Request} (h : bot.IsSentBy clock (2 * k + 1) r) :
    ∃ events, Event.IsBatch r.body events ∧ events.length = bot.conf.actions.total ∧ ∀ e ∈ events,
      (Batch.millis (clock (k + 1)) 0 : ℤ) ≤ e.timestamp.toInt ∧
        e.timestamp.toInt ≤ Batch.millis (clock (k + 1)) bot.window.nanoseconds := by
  have place : (2 * k + 1) / 2 = k := by omega
  cases h with
  | search even _ => omega
  | @report events words words' odd generated sent =>
    rw [place] at generated
    obtain ⟨url, -, -, built⟩ := sent
    refine ⟨events, ?_, Batch.length_of_generate generated,
      fun e listed => Batch.stamp_bounds generated listed⟩
    rw [Exchange.eq_of_build built]
    exact Event.isBatch_writeBatch events

/-- The iterations of a run are numbered from 0 on; the one of number `k` reads `clock (k + 1)` and reports
with the request of number `2 * k + 1`. Where the reading of an iteration is not before the epoch, and from
it up to a later iteration every reading waits at least the window after the one before it, no event that
the later iteration posts is earlier than one that this iteration posts. Each posts as many as the counts
add up to. -/
theorem run_in_order (bot : Bot) (backend : Backend) (clock : ℕ → Instant) (n : ℕ) (p : Progress)
    {k j : ℕ} (before : k < j) (epoch : 0 ≤ clock (k + 1))
    (paused : ∀ i, k < i → i ≤ j → clock i + bot.window.nanoseconds ≤ clock (i + 1)) :
    ∃ requests, (bot.run backend clock n p).2.sent = p.sent ++ requests ∧
      ∀ r ∈ requests[2 * k + 1]?, ∀ r' ∈ requests[2 * j + 1]?, ∃ events events',
        (Event.IsBatch r.body events ∧ events.length = bot.conf.actions.total) ∧
        (Event.IsBatch r'.body events' ∧ events'.length = bot.conf.actions.total) ∧
        ∀ e ∈ events, ∀ e' ∈ events', e.timestamp.toInt ≤ e'.timestamp.toInt := by
  obtain ⟨requests, sent, numbered⟩ := bot.run_sends backend clock n p
  refine ⟨requests, sent, ?_⟩
  intro r found r' found'
  obtain ⟨events, batch, counted, inside⟩ := (numbered _ r found).batch
  obtain ⟨events', batch', counted', inside'⟩ := (numbered _ r' found').batch
  refine ⟨events, events', ⟨batch, counted⟩, ⟨batch', counted'⟩, ?_⟩
  intro e listed e' listed'
  have apart : clock (k + 1) + bot.window.nanoseconds ≤ clock (j + 1) :=
    waited (by omega) fun i low high => paused i (by omega) (by omega)
  have ends : Batch.millis (clock (k + 1)) bot.window.nanoseconds ≤ Batch.millis (clock (j + 1)) 0 :=
    Batch.millis_le_millis epoch apart
  calc e.timestamp.toInt
      ≤ Batch.millis (clock (k + 1)) bot.window.nanoseconds := (inside e listed).2
    _ ≤ Batch.millis (clock (j + 1)) 0 := by exact_mod_cast ends
    _ ≤ e'.timestamp.toInt := (inside' e' listed').1

/-- Two iterations a minute apart, with a window of a minute. -/
theorem run_in_order_minutes :
    let bot : Bot := ⟨⟨Url.http, some ⟨[], none, .domain (Ascii.bytes "localhost"), some 3010⟩,
      Ascii.bytes "/", true, none, none⟩, ⟨"abc"⟩, ⟨["nebo"], .ofList [("scroll", 3)]⟩, ⟨60, 0⟩⟩
    let backend : Backend := fun _ => .reply (Ascii.bytes "HTTP/1.1 204 No Content\r\n\r\n")
    let clock : ℕ → Instant := fun i => 60000000000 * i
    let out := bot.run backend clock 2 (.start (.ofSeed 0))
    (0 : ℕ) < 1 ∧ 0 ≤ clock 1 ∧
      (∀ i, 0 < i → i ≤ 1 → clock i + bot.window.nanoseconds ≤ clock (i + 1)) ∧
      ∃ requests, out.2.sent = requests ∧
        ∀ r ∈ requests[1]?, ∀ r' ∈ requests[3]?, ∃ events events',
          (Event.IsBatch r.body events ∧ events.length = bot.conf.actions.total) ∧
          (Event.IsBatch r'.body events' ∧ events'.length = bot.conf.actions.total) ∧
          ∀ e ∈ events, ∀ e' ∈ events', e.timestamp.toInt ≤ e'.timestamp.toInt := by
  intro bot backend clock out
  have epoch : 0 ≤ clock 1 := by decide
  have paused : ∀ i, 0 < i → i ≤ 1 → clock i + bot.window.nanoseconds ≤ clock (i + 1) := by
    intro i low high
    obtain rfl : i = 1 := by omega
    decide
  exact ⟨Nat.one_pos, epoch, paused,
    run_in_order bot backend clock 2 (.start (.ofSeed 0)) Nat.one_pos epoch paused⟩

end Bot

end GuideRig
