/-
# GuideRig.Proofs.Telemetry.Calls -- what the requests of a bot come down to

A bot makes a request to look a term up or to report events. Either way it ends before there is a URL to
go to, or is one exchange (`makeRequest_cases`, `sendTelemetry_cases`); the report of an iteration is a
report of the events that are generated for it (`report_cases`). What an exchange comes to is told by
whether the URL can be reached, what becomes of the connection, and whether there is a request for it
(`exchange_cases`). Everything else about a bot is read off these.
-/

import GuideRig.Proofs.Http.Exchange
import GuideRig.Proofs.Random
import GuideRig.Telemetry.Bot

namespace GuideRig

namespace Bot

variable {backend : Backend}

/-! ## Exchanges in closed form -/

section Exchange

variable {p : Progress} {method : Method} {url : Url} {headers : List HeaderField} {body : Bytes}
  {doneNote : String}

/-- Nobody is asked for a connection to a URL that cannot be reached. -/
theorem exchange_unsupported (beyond : Exchange.isReachable url = false) :
    exchange p backend method url headers body doneNote =
      (.error (.unsupportedUrl url.text), p) := by
  have untouched : p.after ⟨false, none, .error (.unsupportedUrl url.text)⟩ = p := by
    simp [Progress.after]
  unfold exchange Exchange.send
  simp only [beyond, Bool.not_false, if_true, untouched]

theorem exchange_unreachable {cause : IoError} (reach : Exchange.isReachable url = true)
    (nobody : backend p.tried = .unreachable cause) :
    exchange p backend method url headers body doneNote =
      (.error (.io cause), { p with tried := p.tried + 1 }) := by
  unfold exchange Exchange.send
  simp [reach, nobody, Progress.after]

theorem exchange_unbuilt {bytes : Bytes} {fault : RequestFault}
    (reach : Exchange.isReachable url = true) (there : backend p.tried = .reply bytes)
    (unbuilt : Exchange.build method url headers body = .error fault) :
    exchange p backend method url headers body doneNote =
      (.error (.request fault), { p with tried := p.tried + 1 }) := by
  unfold exchange Exchange.send
  simp [reach, there, unbuilt, Progress.after]

/-- Once there is a request, what is left to decide is the verdict on the response. -/
theorem exchange_built {bytes : Bytes} {r : Request} (reach : Exchange.isReachable url = true)
    (there : backend p.tried = .reply bytes)
    (built : Exchange.build method url headers body = .ok r) :
    exchange p backend method url headers body doneNote =
      match Exchange.judge method url bytes with
      | .error e => (.error e, { p with tried := p.tried + 1, sent := p.sent ++ [r] })
      | .ok _ => (.ok (),
          Progress.note { p with tried := p.tried + 1, sent := p.sent ++ [r] } .debug doneNote) := by
  unfold exchange Exchange.send
  simp only [reach, there, built, Progress.after]
  cases Exchange.judge method url bytes with
  | error e => rfl
  | ok content => rfl

/-- An exchange that is answered with success: nothing of the answer is left. -/
theorem exchange_answered {r : Request} (reach : Exchange.isReachable url = true)
    (built : Exchange.build method url headers body = .ok r) (answered : Answered (backend p.tried)) :
    exchange p backend method url headers body doneNote = (.ok (),
      Progress.note { p with tried := p.tried + 1, sent := p.sent ++ [r] } .debug doneNote) := by
  obtain ⟨bytes, status, content, there, response, low, high⟩ := answered
  rw [exchange_built reach there built, Exchange.judge_done response low high]

/-- With a request in hand, an exchange fails before it has left, fails after that, or succeeds. -/
theorem exchange_cases {r : Request} (reach : Exchange.isReachable url = true)
    (built : Exchange.build method url headers body = .ok r) (backend : Backend) (p : Progress)
    (doneNote : String) :
    (∃ e, exchange p backend method url headers body doneNote =
      (.error e, { p with tried := p.tried + 1 })) ∨
    (∃ e, exchange p backend method url headers body doneNote =
      (.error e, { p with tried := p.tried + 1, sent := p.sent ++ [r] })) ∨
    Answered (backend p.tried) ∧ exchange p backend method url headers body doneNote = (.ok (),
      Progress.note { p with tried := p.tried + 1, sent := p.sent ++ [r] } .debug doneNote) := by
  cases there : backend p.tried with
  | unreachable cause => exact .inl ⟨_, exchange_unreachable reach there⟩
  | reply bytes =>
    right
    rw [exchange_built reach there built]
    cases judged : Exchange.judge method url bytes with
    | error e => exact .inl ⟨e, rfl⟩
    | ok content => exact .inr ⟨Exchange.answered_of_judge judged, rfl⟩

/-- An exchange draws nothing. -/
theorem words_exchange :
    (exchange p backend method url headers body doneNote).2.words = p.words := by
  unfold exchange
  dsimp only
  split
  · rfl
  · rfl

end Exchange

/-! ## Requests -/

/-- A term is drawn whenever there is one. -/
theorem term?_cases (bot : Bot) (w : Words) :
    (bot.conf.queries = [] ∧ (bot.term? w).1 = none) ∨
      ∃ term ∈ bot.conf.queries, (bot.term? w).1 = some term := by
  rw [term?]
  by_cases empty : bot.conf.queries = []
  · exact .inl ⟨empty, by rw [if_pos (List.isEmpty_iff.mpr empty)]⟩
  · have bound := Words.below_lt (List.length_pos_iff.mpr empty) w
    rw [if_neg fun h => empty (List.isEmpty_iff.mp h)]
    exact .inr ⟨_, List.getElem_mem bound, List.getElem?_eq_getElem bound⟩

/-- A search ends without a term, without a URL, or with an exchange. Until then it only spends words and
writes to the log. -/
theorem makeRequest_cases (bot : Bot) (p : Progress) :
    ∃ q : Progress, q.tried = p.tried ∧ q.sent = p.sent ∧
      ((bot.conf.queries = [] ∧
          ∀ backend, bot.makeRequest backend p = (.error (.setup .noQueries), q)) ∨
        ∃ term ∈ bot.conf.queries, (bot.term? p.words).1 = some term ∧
          ((∃ fault, bot.searchUrl term = .error fault ∧
              ∀ backend, bot.makeRequest backend p = (.error (.url fault), q)) ∨
            ∃ url, bot.searchUrl term = .ok url ∧
              ∀ backend, bot.makeRequest backend p =
                exchange q backend .get url [bot.cookieField] [] "Request done")) := by
  have drawn := term?_cases bot p.words
  unfold makeRequest
  rcases draw : bot.term? p.words with ⟨_ | term, words⟩ <;> rw [draw] at drawn
  · obtain ⟨empty, -⟩ | ⟨_, -, ⟨⟩⟩ := drawn
    exact ⟨{ p with words := words }, rfl, rfl, .inl ⟨empty, fun _ => rfl⟩⟩
  · obtain ⟨-, ⟨⟩⟩ | ⟨_, listed, ⟨⟩⟩ := drawn
    dsimp only
    cases made : bot.searchUrl term with
    | error fault =>
      exact ⟨{ p with words := words }, rfl, rfl,
        .inr ⟨term, listed, rfl, .inl ⟨fault, made, fun _ => rfl⟩⟩⟩
    | ok url =>
      exact ⟨Progress.note { p with words := words } .info ("Making request " ++ url.text), rfl, rfl,
        .inr ⟨term, listed, rfl, .inr ⟨url, made, fun _ => rfl⟩⟩⟩

/-- A report ends without a URL or with an exchange. -/
theorem sendTelemetry_cases (bot : Bot) (events : List Event) (p : Progress) :
    (∃ fault, bot.reportUrl = .error fault ∧
      ∀ backend, bot.sendTelemetry backend events p = (.error (.url fault), p)) ∨
    ∃ url q, bot.reportUrl = .ok url ∧ q.tried = p.tried ∧ q.sent = p.sent ∧
      ∀ backend, bot.sendTelemetry backend events p =
        exchange q backend .post url [jsonField, bot.cookieField] (Event.writeBatch events)
          "Telemetry sent" := by
  unfold sendTelemetry
  cases bot.reportUrl with
  | error fault => exact .inl ⟨fault, rfl, fun _ => rfl⟩
  | ok url =>
    exact .inr ⟨url, p.note .info ("Sending telemetry to " ++ url.text), rfl, rfl, rfl, fun _ => rfl⟩

/-- The outcome of a step with another log. -/
def relogged (relog : Except Error Unit × Progress → List LogLine)
    (out : Except Error Unit × Progress) : Except Error Unit × Progress :=
  (out.1, { out.2 with log := relog out })

/-- The report of an iteration has no batch, or is the report of its batch. What is noted after it, the
pause, is in the log only. -/
theorem report_cases (bot : Bot) (now : Instant) (p : Progress) :
    (∃ fault words, Batch.generate bot.conf.actions bot.window now p.words = (.error fault, words) ∧
      ∀ backend, bot.report backend now p = (.error (.setup fault), { p with words := words })) ∨
    ∃ events words q relog,
      Batch.generate bot.conf.actions bot.window now p.words = (.ok events, words) ∧
      q.tried = p.tried ∧ q.sent = p.sent ∧
      ∀ backend, bot.report backend now p = relogged relog (bot.sendTelemetry backend events q) := by
  unfold report
  rcases Batch.generate bot.conf.actions bot.window now p.words with ⟨fault | events, words⟩
  · exact .inl ⟨fault, words, rfl, fun _ => rfl⟩
  · refine .inr ⟨events, words, Progress.note { p with words := words } .info
      ("Generated " ++ toString events.length ++ " telemetry events"), fun out =>
        if out.1.isOk then (out.2.note .info ("Waiting " ++ bot.window.text ++ "s")).log
        else out.2.log, rfl, rfl, rfl, ?_⟩
    intro backend
    dsimp only
    rcases bot.sendTelemetry backend events _ with ⟨_ | _, q⟩ <;> rfl

end Bot

end GuideRig
