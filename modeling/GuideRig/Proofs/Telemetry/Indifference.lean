/-
# GuideRig.Proofs.Telemetry.Indifference -- what a backend has no say in

What a half of an iteration is about to do is settled before its connection is tried: the words that it
draws and the one request that it may send (`Settled`). Of a backend that answers with success a half
learns nothing at all, so two runs whose first connections are all answered so are the same run that far,
and still about to send the same request (`run_indifferent`).
-/

import GuideRig.Proofs.Telemetry.Halves

namespace GuideRig

namespace Bot

variable {bot : Bot} {backend : Backend}

/-! ## Steps that are settled before their connection -/

/-- A step from a progress tries the next connection at most. The words that it draws and the request that
it may send are settled before; it succeeds only if it is answered, and all answers of success are one to
it. -/
structure Settled (p : Progress) (step : Backend → Except Error Unit × Progress) : Prop where
  words : ∀ A B, (step A).2.words = (step B).2.words
  sends : ∃ request : Option Request, ∀ backend,
    (step backend).2.sent = p.sent ∨ (step backend).2.sent = p.sent ++ request.toList
  succeeds : ∀ backend, (step backend).1 = .ok () → Answered (backend p.tried) ∧
    (step backend).2.tried = p.tried + 1 ∧ (step backend).2.sent.length = p.sent.length + 1
  answered : ∀ A B, Answered (A p.tried) → Answered (B p.tried) → step A = step B

namespace Settled

variable {p p' : Progress} {step : Backend → Except Error Unit × Progress}

/-- A step that fails before anything leaves is settled. -/
theorem silent {e : Error} (sent : p'.sent = p.sent) : Settled p fun _ => (.error e, p') where
  words _ _ := rfl
  sends := ⟨none, fun _ => .inl sent⟩
  succeeds _ done := by cases done
  answered _ _ _ _ := rfl

/-- Of the progress before it, a step only sees the connections tried and the requests sent. -/
theorem of_eq (h : Settled p' step) (tried : p'.tried = p.tried) (sent : p'.sent = p.sent) :
    Settled p step where
  words := h.words
  sends := by
    rw [← sent]
    exact h.sends
  succeeds := by
    rw [← sent, ← tried]
    exact h.succeeds
  answered := by
    rw [← tried]
    exact h.answered

/-- What is written to the log after a step changes nothing of this. -/
theorem relogged (h : Settled p step) (relog : Except Error Unit × Progress → List LogLine) :
    Settled p fun backend => Bot.relogged relog (step backend) where
  words := h.words
  sends := h.sends
  succeeds := h.succeeds
  answered A B answeredA answeredB := by rw [h.answered A B answeredA answeredB]

end Settled

/-- An exchange is settled before its connection. -/
theorem settled_exchange (p : Progress) (method : Method) (url : Url) (headers : List HeaderField)
    (body : Bytes) (doneNote : String) :
    Settled p fun backend => exchange p backend method url headers body doneNote := by
  cases reach : Exchange.isReachable url with
  | false =>
    simp only [exchange_unsupported reach]
    exact .silent rfl
  | true =>
    cases built : Exchange.build method url headers body with
    | error fault =>
      have fails : ∀ backend : Backend, ∃ e, exchange p backend method url headers body doneNote =
          (.error e, { p with tried := p.tried + 1 }) := by
        intro backend
        cases there : backend p.tried with
        | unreachable cause => exact ⟨_, exchange_unreachable reach there⟩
        | reply bytes => exact ⟨_, exchange_unbuilt reach there built⟩
      constructor
      · intro A B
        rw [words_exchange, words_exchange]
      · refine ⟨none, fun backend => .inl ?_⟩
        obtain ⟨_, out⟩ := fails backend
        rw [out]
      · intro backend done
        obtain ⟨_, out⟩ := fails backend
        rw [out] at done
        cases done
      · rintro A B ⟨_, _, _, thereA, -⟩ ⟨_, _, _, thereB, -⟩
        show exchange p A _ _ _ _ _ = exchange p B _ _ _ _ _
        rw [exchange_unbuilt reach thereA built, exchange_unbuilt reach thereB built]
    | ok r =>
      constructor
      · intro A B
        rw [words_exchange, words_exchange]
      · refine ⟨some r, fun backend => ?_⟩
        rcases exchange_cases reach built backend p doneNote with ⟨_, out⟩ | ⟨_, out⟩ | ⟨-, out⟩ <;>
        rw [out]
        · exact .inl rfl
        · exact .inr rfl
        · exact .inr rfl
      · intro backend done
        rcases exchange_cases reach built backend p doneNote with ⟨_, out⟩ | ⟨_, out⟩ | ⟨answered, out⟩ <;>
        rw [out] at done ⊢
        · cases done
        · cases done
        · exact ⟨answered, rfl, List.length_append⟩
      · intro A B answeredA answeredB
        show exchange p A _ _ _ _ _ = exchange p B _ _ _ _ _
        rw [exchange_answered reach built answeredA, exchange_answered reach built answeredB]

theorem settled_makeRequest (bot : Bot) (p : Progress) :
    Settled p fun backend => bot.makeRequest backend p := by
  obtain ⟨q, tried, sent, ended⟩ := bot.makeRequest_cases p
  obtain ⟨-, out⟩ | ⟨term, -, -, ⟨fault, -, out⟩ | ⟨url, -, out⟩⟩ := ended
  · rw [funext out]
    exact .silent sent
  · rw [funext out]
    exact .silent sent
  · rw [funext out]
    exact (settled_exchange ..).of_eq tried sent

theorem settled_sendTelemetry (bot : Bot) (events : List Event) (p : Progress) :
    Settled p fun backend => bot.sendTelemetry backend events p := by
  obtain ⟨fault, -, out⟩ | ⟨url, q, -, tried, sent, out⟩ := bot.sendTelemetry_cases events p
  · rw [funext out]
    exact .silent rfl
  · rw [funext out]
    exact (settled_exchange ..).of_eq tried sent

theorem settled_report (bot : Bot) (now : Instant) (p : Progress) :
    Settled p fun backend => bot.report backend now p := by
  obtain ⟨fault, words, -, out⟩ | ⟨events, words, q, relog, -, tried, sent, out⟩ :=
    bot.report_cases now p
  · rw [funext out]
    exact .silent rfl
  · rw [funext out]
    exact ((bot.settled_sendTelemetry events q).of_eq tried sent).relogged relog

/-! ## Halves -/

variable {clock : ℕ → Instant} {total : ℕ}

theorem settled_half (bot : Bot) (clock : ℕ → Instant) (total k : ℕ) (p : Progress) :
    Settled p fun backend => bot.half clock total k backend p := by
  unfold half
  by_cases even : k % 2 = 0
  · simp only [if_pos even]
    exact (settled_makeRequest bot (p.note .info _)).of_eq rfl rfl
  · simp only [if_neg even]
    exact settled_report bot _ p

/-- Nothing that has been sent is taken back. -/
theorem prefix_outcome (k left : ℕ) (p : Progress) :
    p.sent <+: (outcome p (bot.halves clock total backend k left p)).2.sent := by
  obtain ⟨requests, sent, -⟩ := halves_send (bot.sends_half backend clock total) k left p
  exact ⟨requests, sent.symm⟩

/-- The first request of some halves is the one that the first half may send. -/
theorem mem_of_first_sent {k left : ℕ} {p : Progress} {request : Option Request} {r : Request}
    (sends : (bot.half clock total k backend p).2.sent = p.sent ∨
      (bot.half clock total k backend p).2.sent = p.sent ++ request.toList)
    (found : (outcome p (bot.halves clock total backend k (left + 1) p)).2.sent[p.sent.length]? =
      some r) : r ∈ request := by
  -- whether or not the run goes on, what stands there is what the first half has sent
  have first : (bot.half clock total k backend p).2.sent[p.sent.length]? = some r := by
    have succeeds := (bot.settled_half clock total k p).succeeds backend
    rw [outcome_halves_succ] at found
    rcases out : bot.half clock total k backend p with ⟨_ | _, q⟩ <;> rw [out] at found succeeds
    · exact found
    · have length : q.sent.length = p.sent.length + 1 := (succeeds rfl).2.2
      obtain ⟨later, sent⟩ : q.sent <+:
          (outcome q (bot.halves clock total backend (k + 1) left q)).2.sent :=
        prefix_outcome (k + 1) left q
      simp only [← sent] at found
      rw [List.getElem?_append_left (by omega)] at found
      exact found
  rcases sends with same | more
  · rw [same, List.getElem?_eq_none (le_refl _)] at first
    cases first
  · rw [more, List.getElem?_append_right (le_refl _), Nat.sub_self] at first
    cases request with
    | none => cases first
    | some r' => exact first

/-! ## Two runs against different backends -/

/-- Two lists of halves from one progress agree on the first `i`: these are the same, and so is what has
been sent by then; the half after them, where there is one in both, has drawn the same words in both and
does not send different requests. -/
structure Agree (p : Progress) (i : ℕ) (a b : List (Except Error Unit × Progress)) : Prop where
  halves : a.take i = b.take i
  sent : (outcome p a).2.sent.take (p.sent.length + i) = (outcome p b).2.sent.take (p.sent.length + i)
  words : ∀ x ∈ a[i]?, ∀ y ∈ b[i]?, x.2.words = y.2.words
  request : ∀ r ∈ (outcome p a).2.sent[p.sent.length + i]?,
    ∀ r' ∈ (outcome p b).2.sent[p.sent.length + i]?, r = r'

namespace Agree

variable {p q : Progress} {i : ℕ} {a b : List (Except Error Unit × Progress)}

theorem refl (p : Progress) (i : ℕ) (a : List (Except Error Unit × Progress)) : Agree p i a a where
  halves := rfl
  sent := rfl
  words _ hx _ hy := by rw [Option.some.inj (hx.symm.trans hy)]
  request _ hr _ hr' := Option.some.inj (hr.symm.trans hr')

/-- Lists that agree still do after a half that has sent its request in both. -/
theorem cons (h : Agree q i a b) (length : q.sent.length = p.sent.length + 1) :
    Agree p (i + 1) ((.ok (), q) :: a) ((.ok (), q) :: b) := by
  have place : p.sent.length + (i + 1) = q.sent.length + i := by omega
  constructor
  · rw [List.take_succ_cons, List.take_succ_cons, h.halves]
  · rw [outcome_cons_ok, outcome_cons_ok, place]
    exact h.sent
  · rw [List.getElem?_cons_succ, List.getElem?_cons_succ]
    exact h.words
  · rw [outcome_cons_ok, outcome_cons_ok, place]
    exact h.request

end Agree

/-- Before anything is answered, two runs from one progress have drawn the same words and have the same
request, whatever becomes of their first connection. -/
theorem agree_zero (A B : Backend) (k left : ℕ) (p : Progress) :
    Agree p 0 (bot.halves clock total A k left p) (bot.halves clock total B k left p) := by
  have kept : ∀ backend, (outcome p (bot.halves clock total backend k left p)).2.sent.take
      (p.sent.length + 0) = p.sent := by
    intro backend
    exact (List.prefix_iff_eq_take.mp (prefix_outcome k left p)).symm
  cases left with
  | zero => exact .refl p 0 _
  | succ left =>
    have settled := bot.settled_half clock total k p
    have head : ∀ backend, (bot.halves clock total backend k (left + 1) p)[0]? =
        some (bot.half clock total k backend p) := by
      intro backend
      rw [halves]
      rcases bot.half clock total k backend p with ⟨_ | _, q⟩ <;> rfl
    obtain ⟨request, sends⟩ := settled.sends
    constructor
    · rfl
    · rw [kept, kept]
    · intro x hx y hy
      rw [head] at hx hy
      obtain rfl := Option.some.inj hx
      obtain rfl := Option.some.inj hy
      exact settled.words A B
    · intro r hr r' hr'
      exact Option.some.inj ((mem_of_first_sent (sends A) hr).symm.trans
        (mem_of_first_sent (sends B) hr'))

/-- Each connection that both backends answer with success is a half more on which two runs agree. -/
theorem agree_halves {A B : Backend} {i : ℕ} (k left : ℕ) (p : Progress)
    (answered : ∀ j < i, Answered (A (p.tried + j)) ∧ Answered (B (p.tried + j))) :
    Agree p i (bot.halves clock total A k left p) (bot.halves clock total B k left p) := by
  induction i generalizing k left p with
  | zero => exact agree_zero A B k left p
  | succ i ih =>
    cases left with
    | zero => exact .refl p (i + 1) _
    | succ left =>
      have settled := bot.settled_half clock total k p
      obtain ⟨answeredA, answeredB⟩ := answered 0 (Nat.succ_pos i)
      have same : bot.half clock total k A p = bot.half clock total k B p :=
        settled.answered A B answeredA answeredB
      have succeeds := settled.succeeds B
      rw [halves, halves, same]
      rcases out : bot.half clock total k B p with ⟨_ | _, q⟩ <;> rw [out] at succeeds
      · exact .refl p (i + 1) _
      · obtain ⟨-, tried, length⟩ := succeeds rfl
        dsimp only at tried length
        refine Agree.cons (ih (k + 1) left q fun j below => ?_) length
        rw [tried, Nat.add_assoc, Nat.add_comm 1]
        exact answered (j + 1) (by omega)

/-- A half is only reached through halves that were answered. -/
theorem answered_of_lt_length {i k left : ℕ} {p : Progress}
    (reached : i < (bot.halves clock total backend k left p).length) :
    ∀ j < i, Answered (backend (p.tried + j)) := by
  induction i generalizing k left p with
  | zero =>
    intro j below
    omega
  | succ i ih =>
    cases left with
    | zero => exact absurd reached (Nat.not_lt_zero _)
    | succ left =>
      have succeeds := (bot.settled_half clock total k p).succeeds backend
      rw [halves] at reached
      rcases out : bot.half clock total k backend p with ⟨_ | _, q⟩ <;> rw [out] at succeeds reached
      · exact absurd reached (by simp)
      · obtain ⟨answered, tried, -⟩ := succeeds rfl
        intro j below
        cases j with
        | zero => exact answered
        | succ j =>
          have later := ih (Nat.lt_of_succ_lt_succ reached) j (by omega)
          dsimp only at tried
          rw [tried, Nat.add_assoc, Nat.add_comm 1] at later
          exact later

/-- A run is what its halves come to, and of two runs against different backends the halves agree as far
as both backends answer with success, whatever the statuses, fields and bodies of their responses. No
half that both runs reach draws other words, or sends another request, in one than in the other. -/
theorem run_indifferent (bot : Bot) (clock : ℕ → Instant) (n : ℕ) (p : Progress) (A B : Backend) :
    bot.run A clock n p = outcome p (bot.halves clock n A 0 (2 * n) p) ∧
    bot.run B clock n p = outcome p (bot.halves clock n B 0 (2 * n) p) ∧
    (∀ k, (∀ j < k, Answered (A (p.tried + j)) ∧ Answered (B (p.tried + j))) →
      Agree p k (bot.halves clock n A 0 (2 * n) p) (bot.halves clock n B 0 (2 * n) p)) ∧
    ∀ k, k < (bot.halves clock n A 0 (2 * n) p).length →
      k < (bot.halves clock n B 0 (2 * n) p).length →
      Agree p k (bot.halves clock n A 0 (2 * n) p) (bot.halves clock n B 0 (2 * n) p) := by
  refine ⟨run_eq_outcome _ _ _ _ _, run_eq_outcome _ _ _ _ _, ?_, ?_⟩
  · intro k answered
    exact agree_halves 0 (2 * n) p answered
  · intro k reachedA reachedB
    exact agree_halves 0 (2 * n) p fun j below =>
      ⟨answered_of_lt_length reachedA j below, answered_of_lt_length reachedB j below⟩

/-- Two iterations against a backend that answers every request with an empty page, and against one that
answers the first alone, with a page of three bytes. -/
theorem run_indifferent_answered :
    let bot : Bot := ⟨⟨Url.http, some ⟨[], none, .domain (Ascii.bytes "localhost"), some 3010⟩,
      Ascii.bytes "/", true, none, none⟩, ⟨"abc"⟩, ⟨["nebo"], .empty⟩, ⟨60, 0⟩⟩
    let A : Backend := fun _ => .reply (Ascii.bytes "HTTP/1.1 204 No Content\r\n\r\n")
    let B : Backend := fun i =>
      .reply (if i = 0 then Ascii.bytes "HTTP/1.1 200 OK\r\nContent-Length: 3\r\n\r\nabc" else [])
    let p : Progress := .start (.ofSeed 0)
    (∀ j < 1, Answered (A (p.tried + j)) ∧ Answered (B (p.tried + j))) ∧
      Agree p 1 (bot.halves (fun _ => 0) 2 A 0 4 p) (bot.halves (fun _ => 0) 2 B 0 4 p) := by
  intro bot A B p
  have answered : ∀ j < 1, Answered (A (p.tried + j)) ∧ Answered (B (p.tried + j)) := by
    intro j below
    obtain rfl : j = 0 := by omega
    constructor
    · exact ⟨_, 204, [], rfl, ResponseReader.read_eq_ok_iff.mp (by decide), by decide, by decide⟩
    · exact ⟨_, 200, Ascii.bytes "abc", rfl, ResponseReader.read_eq_ok_iff.mp (by decide), by decide,
        by decide⟩
  exact ⟨answered, (run_indifferent bot (fun _ => 0) 2 p A B).2.2.1 1 answered⟩

end Bot

end GuideRig
