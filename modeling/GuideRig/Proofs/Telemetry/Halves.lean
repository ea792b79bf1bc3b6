/-
# GuideRig.Proofs.Telemetry.Halves -- a run half by half, and what each half puts on the wire

An iteration has two halves, a search and a report, and a run is what its halves come to, one after the
other, up to the first that fails (`run_eq_outcome`). A half sends one request at most, and a half that
succeeds has sent it (`Sends`). So the requests of a run are numbered like its halves, and each of them is
the one that its half builds, be its batch as it may (`run_sends`).
-/

import GuideRig.Proofs.Telemetry.Run

namespace GuideRig

namespace Bot

variable {bot : Bot} {backend : Backend}

/-! ## What a step sends -/

/-- A step adds one request at most to those that have been sent, one that is as foreseen; a step that
succeeds has added it. -/
def Sends (p : Progress) (out : Except Error Unit × Progress) (Foreseen : Request → Prop) : Prop :=
  ∃ request : Option Request, out.2.sent = p.sent ++ request.toList ∧
    (out.1 = .ok () → request.isSome) ∧ ∀ r ∈ request, Foreseen r

/-- The requests that look a term up. -/
def IsSearch (bot : Bot) (r : Request) : Prop :=
  ∃ term ∈ bot.conf.queries, ∃ url, bot.searchUrl term = .ok url ∧ Exchange.isReachable url ∧
    Exchange.build .get url [bot.cookieField] [] = .ok r

/-- The requests that report some events. -/
def IsReport (bot : Bot) (events : List Event) (r : Request) : Prop :=
  ∃ url, bot.reportUrl = .ok url ∧ Exchange.isReachable url ∧
    Exchange.build .post url [jsonField, bot.cookieField] (Event.writeBatch events) = .ok r

namespace Sends

variable {p p' : Progress} {out : Except Error Unit × Progress} {P Q : Request → Prop}

/-- A step that fails before anything leaves. -/
theorem silent {e : Error} (sent : p'.sent = p.sent) : Sends p (.error e, p') P := by
  refine ⟨none, ?_, ?_, ?_⟩
  · rw [Option.toList_none, List.append_nil, sent]
  · rintro ⟨⟩
  · rintro r ⟨⟩

theorem of_eq (h : Sends p' out P) (sent : p'.sent = p.sent) : Sends p out P := by
  unfold Sends at h ⊢
  rw [sent] at h
  exact h

theorem mono (h : Sends p out P) (weaker : ∀ r, P r → Q r) : Sends p out Q := by
  obtain ⟨request, added, sure, foreseen⟩ := h
  exact ⟨request, added, sure, fun r hr => weaker r (foreseen r hr)⟩

/-- A request that has been sent after a step was sent before it, or is as foreseen. -/
theorem mem (h : Sends p out P) {r : Request} (sent : r ∈ out.2.sent) : r ∈ p.sent ∨ P r := by
  obtain ⟨request, added, -, foreseen⟩ := h
  rw [added] at sent
  rcases List.mem_append.mp sent with old | new
  · exact .inl old
  · exact .inr (foreseen r (by simpa using new))

end Sends

theorem sends_exchange (backend : Backend) (p : Progress) (method : Method) (url : Url)
    (headers : List HeaderField) (body : Bytes) (doneNote : String) :
    Sends p (exchange p backend method url headers body doneNote) fun r =>
      Exchange.isReachable url ∧ Exchange.build method url headers body = .ok r := by
  have task : (⟨method, .ok url, headers, body⟩ : Task).url = .ok url := rfl
  obtain ⟨request, attempt, added, -⟩ := attempted_exchange task backend p doneNote
  refine ⟨request, added, ?_, ?_⟩
  · intro done
    rw [done] at attempt
    obtain ⟨-, r, rfl⟩ := attempt.of_ok
    rfl
  · rintro r ⟨⟩
    obtain ⟨_, ⟨⟩, reach, built⟩ := attempt.left
    exact ⟨reach, built⟩

theorem sends_makeRequest (bot : Bot) (backend : Backend) (p : Progress) :
    Sends p (bot.makeRequest backend p) bot.IsSearch := by
  obtain ⟨q, -, sent, ended⟩ := bot.makeRequest_cases p
  obtain ⟨-, out⟩ | ⟨term, listed, -, ⟨fault, -, out⟩ | ⟨url, made, out⟩⟩ := ended
  · rw [out]
    exact .silent sent
  · rw [out]
    exact .silent sent
  · rw [out]
    apply Sends.of_eq _ sent
    exact (sends_exchange ..).mono fun r built => ⟨term, listed, url, made, built⟩

theorem sends_sendTelemetry (bot : Bot) (backend : Backend) (events : List Event) (p : Progress) :
    Sends p (bot.sendTelemetry backend events p) (bot.IsReport events) := by
  obtain ⟨fault, -, out⟩ | ⟨url, q, made, -, sent, out⟩ := bot.sendTelemetry_cases events p
  · rw [out]
    exact .silent rfl
  · rw [out]
    apply Sends.of_eq _ sent
    exact (sends_exchange ..).mono fun r built => ⟨url, made, built⟩

/-- A report of an iteration is one of the events that are generated at its reading of the clock. -/
theorem sends_report {Told : List Event → Request → Prop}
    (told : ∀ events p, Sends p (bot.sendTelemetry backend events p) (Told events)) (now : Instant)
    (p : Progress) :
    Sends p (bot.report backend now p) fun r => ∃ events words words',
      Batch.generate bot.conf.actions bot.window now words = (.ok events, words') ∧ Told events r := by
  obtain ⟨fault, words, -, out⟩ | ⟨events, words, q, relog, generated, -, sent, out⟩ :=
    bot.report_cases now p
  · rw [out]
    exact .silent rfl
  · rw [out]
    apply Sends.of_eq _ sent
    exact (told events q).mono fun r told => ⟨events, _, _, generated, told⟩

/-! ## A run as its halves -/

/-- The half of a run with a number, which is a search or a report in turn. -/
def half (bot : Bot) (clock : ℕ → Instant) (total k : ℕ) (backend : Backend) (p : Progress) :
    Except Error Unit × Progress :=
  if k % 2 = 0 then bot.search backend (heading (k / 2 + 1) total) p
  else bot.report backend (clock (k / 2 + 1)) p

/-- What so many halves from number `k` on come to, one after the other, up to the first that fails. -/
def halves (bot : Bot) (clock : ℕ → Instant) (total : ℕ) (backend : Backend) :
    ℕ → ℕ → Progress → List (Except Error Unit × Progress)
  | _, 0, _ => []
  | k, left + 1, p =>
    match bot.half clock total k backend p with
    | (.error e, q) => [(.error e, q)]
    | (.ok _, q) => (.ok (), q) :: halves bot clock total backend (k + 1) left q

/-- What the halves of a run come to: the last of them, or nothing done at all. -/
def outcome (p : Progress) (done : List (Except Error Unit × Progress)) : Except Error Unit × Progress :=
  done.getLast?.getD (.ok (), p)

/-- After a half that succeeds, it is the halves that follow which count. -/
@[simp] theorem outcome_cons_ok (p q : Progress) (rest : List (Except Error Unit × Progress)) :
    outcome p ((.ok (), q) :: rest) = outcome q rest := by
  rw [outcome, outcome, List.getLast?_cons, Option.getD_some]

variable {clock : ℕ → Instant} {total : ℕ}

theorem half_search (j : ℕ) (p : Progress) :
    bot.half clock total (2 * j) backend p = bot.search backend (heading (j + 1) total) p := by
  rw [half, if_pos (by omega), show 2 * j / 2 = j by omega]

theorem half_report (j : ℕ) (p : Progress) :
    bot.half clock total (2 * j + 1) backend p = bot.report backend (clock (j + 1)) p := by
  rw [half, if_neg (by omega), show (2 * j + 1) / 2 = j by omega]

/-- A run of some halves begins with the first of them. -/
theorem outcome_halves_succ (k left : ℕ) (p : Progress) :
    outcome p (bot.halves clock total backend k (left + 1) p) =
      match bot.half clock total k backend p with
      | (.error e, q) => (.error e, q)
      | (.ok _, q) => outcome q (bot.halves clock total backend (k + 1) left q) := by
  rw [halves]
  rcases bot.half clock total k backend p with ⟨_ | _, q⟩
  · rfl
  · exact outcome_cons_ok p q _

/-- The iterations of a run come to what their halves come to. -/
theorem iterations_eq_outcome (left j : ℕ) (p : Progress) :
    bot.iterations backend clock total (j + 1) left p =
      outcome p (bot.halves clock total backend (2 * j) (2 * left) p) := by
  induction left generalizing j p with
  | zero => rfl
  | succ left ih =>
    rw [iterations, iteration, show 2 * (left + 1) = 2 * left + 1 + 1 by omega,
      outcome_halves_succ, half_search]
    rcases bot.search backend (heading (j + 1) total) p with ⟨_ | _, q⟩
    · rfl
    · dsimp only
      rw [outcome_halves_succ, half_report]
      rcases bot.report backend (clock (j + 1)) q with ⟨_ | _, q'⟩
      · rfl
      · exact ih (j + 1) q'

theorem run_eq_outcome (bot : Bot) (backend : Backend) (clock : ℕ → Instant) (n : ℕ) (p : Progress) :
    bot.run backend clock n p = outcome p (bot.halves clock n backend 0 (2 * n) p) :=
  iterations_eq_outcome n 0 p

/-! ## What a run sends -/

/-- The requests that the half of a number may send. -/
inductive IsSentBy (bot : Bot) (clock : ℕ → Instant) (k : ℕ) (r : Request) : Prop
  | search : k % 2 = 0 → bot.IsSearch r → IsSentBy bot clock k r
  | report {events : List Event} {words words' : Words} : k % 2 = 1 →
      Batch.generate bot.conf.actions bot.window (clock (k / 2 + 1)) words = (.ok events, words') →
      bot.IsReport events r → IsSentBy bot clock k r

theorem sends_half (bot : Bot) (backend : Backend) (clock : ℕ → Instant) (total k : ℕ) (p : Progress) :
    Sends p (bot.half clock total k backend p) (bot.IsSentBy clock k) := by
  unfold half
  by_cases even : k % 2 = 0
  · rw [if_pos even, search]
    exact ((sends_makeRequest bot backend _).mono fun r sent => .search even sent).of_eq rfl
  · rw [if_neg even]
    refine (sends_report (bot.sends_sendTelemetry backend) _ p).mono ?_
    rintro r ⟨events, words, words', generated, sent⟩
    exact .report (by omega) generated sent

/-- The requests of some halves are numbered like the halves that send them. -/
theorem halves_send {Foreseen : ℕ → Request → Prop}
    (sends : ∀ k p, Sends p (bot.half clock total k backend p) (Foreseen k)) (k left : ℕ)
    (p : Progress) :
    ∃ requests, (outcome p (bot.halves clock total backend k left p)).2.sent = p.sent ++ requests ∧
      ∀ (i : ℕ) (r : Request), requests[i]? = some r → Foreseen (k + i) r := by
  induction left generalizing k p with
  | zero =>
    refine ⟨[], (List.append_nil _).symm, ?_⟩
    intro i r found
    cases found
  | succ left ih =>
    obtain ⟨request, added, sure, foreseen⟩ := sends k p
    rw [outcome_halves_succ]
    rcases out : bot.half clock total k backend p with ⟨_ | _, q⟩ <;> rw [out] at added sure
    · refine ⟨request.toList, added, ?_⟩
      intro i r found
      cases request with
      | none => cases found
      | some r' =>
        obtain ⟨rfl, rfl⟩ : i = 0 ∧ r' = r := by simpa [List.getElem?_singleton] using found
        exact foreseen r' rfl
    -- the half has succeeded, so there is a request of its number
    · obtain ⟨r', rfl⟩ := Option.isSome_iff_exists.mp (sure rfl)
      obtain ⟨requests, later, sent⟩ := ih (k + 1) q
      refine ⟨r' :: requests, ?_, ?_⟩
      · dsimp only at added ⊢
        rw [later, added, List.append_assoc]
        rfl
      · intro i r found
        cases i with
        | zero =>
          rw [List.getElem?_cons_zero] at found
          exact foreseen r found
        | succ i =>
          rw [← Nat.add_assoc, Nat.add_right_comm]
          exact sent i r found

/-- The requests of a run, whatever becomes of its connections and its batches. -/
theorem run_sends (bot : Bot) (backend : Backend) (clock : ℕ → Instant) (n : ℕ) (p : Progress) :
    ∃ requests, (bot.run backend clock n p).2.sent = p.sent ++ requests ∧
      ∀ (i : ℕ) (r : Request), requests[i]? = some r → bot.IsSentBy clock i r := by
  obtain ⟨requests, sent, numbered⟩ := halves_send (bot.sends_half backend clock n) 0 (2 * n) p
  refine ⟨requests, ?_, ?_⟩
  · rw [run_eq_outcome]
    exact sent
  · intro i r found
    rw [← Nat.zero_add i]
    exact numbered i r found

/-- What is foreseen of every request for a term and of every report is true of all that a run sends. -/
theorem forall_mem_run {P : Request → Prop} (search : ∀ p, Sends p (bot.makeRequest backend p) P)
    (report : ∀ events p, Sends p (bot.sendTelemetry backend events p) P) (clock : ℕ → Instant) (n : ℕ)
    (p : Progress) : ∀ r ∈ (bot.run backend clock n p).2.sent, r ∈ p.sent ∨ P r := by
  have half : ∀ k p, Sends p (bot.half clock n k backend p) P := by
    intro k p
    unfold half
    split
    · exact (search _).of_eq rfl
    · exact (sends_report report _ p).mono fun r ⟨_, _, _, _, told⟩ => told
  obtain ⟨requests, sent, numbered⟩ :=
    @halves_send bot backend clock n (fun _ => P) half 0 (2 * n) p
  intro r hr
  rw [run_eq_outcome, sent] at hr
  rcases List.mem_append.mp hr with old | new
  · exact .inl old
  · obtain ⟨i, found⟩ := List.mem_iff_getElem?.mp new
    exact .inr (numbered i r found)

end Bot

end GuideRig
