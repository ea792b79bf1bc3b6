/-
# GuideRig.Proofs.Telemetry.Run -- a run is its exchanges, in order, up to the first failure

The exchanges of a run are numbered from 0 on: an even one looks a term up, an odd one reports a batch.
`Exchanged` says what may come of one of them, whatever its connection does; `Trace` strings them
together, each with a connection of its own, and ends with the first that fails. `iterations_runs`
shows that this is what a run does. What a user sees of it (`Shows`) is then an induction over traces.
-/

import GuideRig.Proofs.Telemetry.Batch
import GuideRig.Proofs.Telemetry.Calls

namespace GuideRig

namespace Bot

variable {bot : Bot} {backend : Backend}

/-! ## One exchange of a run -/

/-- What the exchange of a number sets out to do. -/
inductive IsTask (bot : Bot) (k : ℕ) : Task → Prop
  | search {term : String} : k % 2 = 0 → term ∈ bot.conf.queries →
      IsTask bot k ⟨.get, bot.searchUrl term, [bot.cookieField], []⟩
  | report {events : List Event} : k % 2 = 1 → events.length = bot.conf.actions.total →
      IsTask bot k ⟨.post, bot.reportUrl, [jsonField, bot.cookieField], Event.writeBatch events⟩

/-- What may come of the exchange of a number. Only a search with no term to choose ends before there is
a task. -/
inductive Exchanged (bot : Bot) (k : ℕ) (answer : Answer) :
    Option Request → Except Error Unit → Prop
  | termless : k % 2 = 0 → bot.conf.queries = [] →
      Exchanged bot k answer none (.error (.setup .noQueries))
  | attempted {task : Task} {sent : Option Request} {result : Except Error Unit} :
      IsTask bot k task → Attempted task answer sent result → Exchanged bot k answer sent result

/-- What the exchange of a number puts on the wire. -/
structure IsRequest (bot : Bot) (k : ℕ) (r : Request) : Prop where
  cookie : (r.headers.filter fun h => h.name = "Cookie").map HeaderField.value =
    [Utf8.encode ("wag.session=" ++ bot.session.id)]
  search : k % 2 = 0 → r.method = .get ∧ r.body = [] ∧ ∃ term ∈ bot.conf.queries,
    r.target = Url.folder bot.root.scheme bot.root.path ++ Ascii.bytes "language-guide" ++
      Ascii.byte '?' :: Query.ofPair "q" term
  report : k % 2 = 1 → r.method = .post ∧
    r.target = Url.folder bot.root.scheme bot.root.path ++ Ascii.bytes "telemetry" ∧
    ∃ events, events.length = bot.conf.actions.total ∧ r.body = Event.writeBatch events

/-- A resolved URL keeps the host of its base; its path is the segment in the folder of the base. -/
theorem eq_of_resolve {base url : Url} {segment : Bytes} (h : base.resolve segment = .ok url) :
    url = ⟨base.scheme, base.authority, Url.folder base.scheme base.path ++ segment, true, none,
      none⟩ := by
  rw [Url.resolve] at h
  split at h
  · exact (Except.ok.inj h).symm
  · cases h

theorem target_of_searchUrl {term : String} {url : Url} (h : bot.searchUrl term = .ok url) :
    url.target = Url.folder bot.root.scheme bot.root.path ++ Ascii.bytes "language-guide" ++
      Ascii.byte '?' :: Query.ofPair "q" term := by
  rw [searchUrl] at h
  cases resolved : bot.root.resolve guideSegment with
  | error f =>
    rw [resolved] at h
    cases h
  | ok base =>
    rw [resolved] at h
    rw [← Except.ok.inj h, eq_of_resolve resolved]
    rfl

theorem target_of_reportUrl {url : Url} (h : bot.reportUrl = .ok url) :
    url.target = Url.folder bot.root.scheme bot.root.path ++ Ascii.bytes "telemetry" := by
  rw [eq_of_resolve h, Url.target, List.append_nil]
  rfl

/-- Of the fields of a request only the bot's own is named like the cookie. -/
theorem cookie_of_headers {url : Url} {headers : List HeaderField} {body : Bytes}
    (h : headers = [bot.cookieField] ∨ headers = [jsonField, bot.cookieField]) :
    ((Exchange.hostField url :: headers ++ Exchange.bodyFields body).filter
      fun h => h.name = "Cookie").map HeaderField.value =
      [Utf8.encode ("wag.session=" ++ bot.session.id)] := by
  -- the fields that tell of a body stand last, and none of them is the cookie
  have framing : (Exchange.bodyFields body).filter (fun h => h.name = "Cookie") = [] := by
    rw [Exchange.bodyFields]
    split <;> simp
  rcases h with rfl | rfl <;> rw [List.filter_append, framing] <;> rfl

/-- The request built for the task of a number is the one of that number. -/
theorem IsTask.isRequest {k : ℕ} {task : Task} {url : Url} {r : Request} (h : IsTask bot k task)
    (made : task.url = .ok url)
    (built : Exchange.build task.method url task.headers task.body = .ok r) :
    IsRequest bot k r := by
  rw [Exchange.eq_of_build built]
  -- the number has one parity, so that the other half of `IsRequest` has nothing to say
  cases h with
  | search even chosen =>
    exact ⟨cookie_of_headers (.inl rfl),
      fun _ => ⟨rfl, rfl, _, chosen, target_of_searchUrl made⟩, by omega⟩
  | report odd counted =>
    exact ⟨cookie_of_headers (.inr rfl), by omega,
      fun _ => ⟨rfl, target_of_reportUrl made, _, counted, rfl⟩⟩

namespace Exchanged

variable {k : ℕ} {answer : Answer}

/-- An exchange that succeeds has sent its request, and was answered. -/
theorem of_ok {sent : Option Request} (h : Exchanged bot k answer sent (.ok ())) :
    Answered answer ∧ ∃ request, sent = some request := by
  cases h with
  | attempted task attempt => exact attempt.of_ok

/-- An exchange that fails after its request has left was not answered. -/
theorem not_answered {r : Request} {e : Error} (h : Exchanged bot k answer (some r) (.error e)) :
    ¬ Answered answer := by
  cases h with
  | attempted task attempt => exact attempt.not_answered

/-- What leaves is the request of the exchange. -/
theorem isRequest {r : Request} {result : Except Error Unit}
    (h : Exchanged bot k answer (some r) result) : IsRequest bot k r := by
  cases h with
  | attempted task attempt =>
    obtain ⟨url, made, built⟩ := attempt.built
    exact task.isRequest made built

end Exchanged

/-! ## Steps of a run -/

/-- A step of a run performs the exchange of a number: it reports what came of it and adds what was sent.
After a success the next connection is the one to try. -/
def Performs (bot : Bot) (backend : Backend) (k : ℕ) (p : Progress)
    (out : Except Error Unit × Progress) : Prop :=
  ∃ sent, Exchanged bot k (backend p.tried) sent out.1 ∧ out.2.sent = p.sent ++ sent.toList ∧
    (out.1 = .ok () → out.2.tried = p.tried + 1)

namespace Performs

variable {k : ℕ} {p : Progress} {out : Except Error Unit × Progress}

/-- An exchange that ends before anything leaves is performed by giving up. -/
theorem silent {e : Error} {p' : Progress} (h : Exchanged bot k (backend p.tried) none (.error e))
    (sent : p'.sent = p.sent) : Performs bot backend k p (.error e, p') := by
  refine ⟨none, h, ?_, ?_⟩
  · rw [Option.toList_none, List.append_nil, sent]
  · rintro ⟨⟩

/-- Of the progress before it, a step only sees the connections tried and the requests sent. -/
theorem of_eq {p' : Progress} (h : Performs bot backend k p' out) (tried : p'.tried = p.tried)
    (sent : p'.sent = p.sent) : Performs bot backend k p out := by
  rw [Performs, tried, sent] at h
  exact h

end Performs

/-- An exchange of a bot is attempted at the connection that comes next, and what leaves is added to what
has been sent. -/
theorem attempted_exchange {task : Task} {url : Url} (made : task.url = .ok url) (backend : Backend)
    (p : Progress) (doneNote : String) :
    ∃ sent, Attempted task (backend p.tried) sent
        (exchange p backend task.method url task.headers task.body doneNote).1 ∧
      (exchange p backend task.method url task.headers task.body doneNote).2.sent =
        p.sent ++ sent.toList ∧
      ((exchange p backend task.method url task.headers task.body doneNote).1 = .ok () →
        (exchange p backend task.method url task.headers task.body doneNote).2.tried = p.tried + 1) := by
  have attempt := Exchange.attempted_send made (backend p.tried)
  rw [exchange]
  cases outcome : (Exchange.send task.method url task.headers task.body (backend p.tried)).outcome with
  | error e =>
    rw [outcome] at attempt
    refine ⟨_, attempt, rfl, ?_⟩
    rintro ⟨⟩
  | ok content =>
    rw [outcome] at attempt
    exact ⟨_, attempt, rfl, fun _ => if_pos (Exchange.tried_of_ok outcome)⟩

/-- So many exchanges from number `k` on, each at a connection of its own, up to the first that fails: the
requests that leave, and what is reported in the end. The exchange of number 0 is at connection `first`. -/
inductive Trace (bot : Bot) (backend : Backend) (first : ℕ) :
    ℕ → ℕ → List Request → Except Error Unit → Prop
  | all {k : ℕ} : Trace bot backend first k 0 [] (.ok ())
  | fails {k left : ℕ} {sent : Option Request} {e : Error} :
      Exchanged bot k (backend (first + k)) sent (.error e) →
      Trace bot backend first k (left + 1) sent.toList (.error e)
  | goes {k left : ℕ} {r : Request} {rest : List Request} {result : Except Error Unit} :
      Exchanged bot k (backend (first + k)) (some r) (.ok ()) →
      Trace bot backend first (k + 1) left rest result →
      Trace bot backend first k (left + 1) (r :: rest) result

/-- A part of a run performs so many exchanges from number `k` on. -/
def Runs (bot : Bot) (backend : Backend) (first k left : ℕ) (p : Progress)
    (out : Except Error Unit × Progress) : Prop :=
  ∃ requests, out.2.sent = p.sent ++ requests ∧ Trace bot backend first k left requests out.1

namespace Performs

variable {first k left : ℕ} {p p' : Progress}

theorem stops {e : Error} (h : Performs bot backend k p (.error e, p'))
    (place : p.tried = first + k) : Runs bot backend first k (left + 1) p (.error e, p') := by
  obtain ⟨sent, exchanged, added, -⟩ := h
  rw [place] at exchanged
  exact ⟨_, added, .fails exchanged⟩

theorem goes {out : Except Error Unit × Progress} (h : Performs bot backend k p (.ok (), p'))
    (place : p.tried = first + k)
    (rest : p'.tried = first + (k + 1) → Runs bot backend first (k + 1) left p' out) :
    Runs bot backend first k (left + 1) p out := by
  obtain ⟨sent, exchanged, added, next⟩ := h
  obtain ⟨requests, tail, trace⟩ := rest (by rw [next rfl, place, Nat.add_assoc])
  rw [place] at exchanged
  -- a success has sent its request, so the numbers of exchanges and of requests stay in step
  obtain ⟨-, r, rfl⟩ := exchanged.of_ok
  refine ⟨r :: requests, ?_, .goes exchanged trace⟩
  rw [tail, added, List.append_assoc]
  rfl

end Performs

namespace Trace

variable {first k left : ℕ} {requests : List Request} {result : Except Error Unit}

theorem length_le (h : Trace bot backend first k left requests result) :
    requests.length ≤ left := by
  induction h with
  | all => exact Nat.le_refl 0
  | @fails k left sent e exchanged =>
    cases sent with
    | none => exact Nat.zero_le _
    | some r => exact Nat.succ_le_succ (Nat.zero_le left)
  | goes exchanged trace ih => exact Nat.succ_le_succ ih

/-- Requests leave in the order of the exchanges, one for each. -/
theorem isRequest (h : Trace bot backend first k left requests result) {j : ℕ} {r : Request}
    (found : requests[j]? = some r) : IsRequest bot (k + j) r := by
  induction h generalizing j with
  | all => cases found
  | @fails k left sent e exchanged =>
    cases sent with
    | none => cases found
    | some r' =>
      obtain ⟨rfl, rfl⟩ : j = 0 ∧ r' = r := by simpa [List.getElem?_singleton] using found
      exact exchanged.isRequest
  | @goes k left r' rest result exchanged trace ih =>
    cases j with
    | zero =>
      rw [List.getElem?_cons_zero] at found
      rw [← Option.some.inj found]
      exact exchanged.isRequest
    | succ j =>
      rw [List.getElem?_cons_succ] at found
      rw [← Nat.add_assoc, Nat.add_right_comm]
      exact ih found

/-- Success is success at every exchange. -/
theorem ok_iff (h : Trace bot backend first k left requests result) :
    result = .ok () ↔
      requests.length = left ∧ ∀ j < left, Answered (backend (first + (k + j))) := by
  induction h with
  | all =>
    refine ⟨fun _ => ⟨rfl, ?_⟩, fun _ => rfl⟩
    intro j below
    omega
  | @fails k left sent e exchanged =>
    constructor
    · rintro ⟨⟩
    · rintro ⟨length, answered⟩
      cases sent with
      -- nothing left, so there are fewer requests than exchanges
      | none => cases length
      | some r => exact absurd (answered 0 (Nat.succ_pos left)) exchanged.not_answered
  | @goes k left r rest result exchanged trace ih =>
    rw [ih, List.length_cons, Nat.succ_inj]
    refine and_congr_right fun _ => ⟨fun later j below => ?_, fun all j below => ?_⟩
    · cases j with
      | zero => exact exchanged.of_ok.1
      | succ j =>
        rw [← Nat.add_assoc k, Nat.add_right_comm k]
        exact later j (by omega)
    · rw [Nat.add_right_comm k, Nat.add_assoc k]
      exact all (j + 1) (by omega)

/-- A failure is that of the first exchange to fail. All before it were answered, and nothing is sent
after it. -/
theorem first_failure {e : Error} (h : Trace bot backend first k left requests result)
    (failed : result = .error e) : ∃ j < left, ∃ sent,
      (∀ i < j, Answered (backend (first + (k + i)))) ∧
      Exchanged bot (k + j) (backend (first + (k + j))) sent (.error e) ∧
      requests.length = j + sent.toList.length ∧ requests[j]? = sent := by
  induction h with
  | all => cases failed
  | @fails k left sent e' exchanged =>
    cases failed
    refine ⟨0, Nat.succ_pos left, sent, ?_, exchanged, (Nat.zero_add _).symm, ?_⟩
    · intro i below
      omega
    · cases sent with
      | none => rfl
      | some r => rfl
  | @goes k left r rest result exchanged trace ih =>
    obtain ⟨j, below, sent, before, fails, length, last⟩ := ih failed
    rw [Nat.add_right_comm k, Nat.add_assoc k] at fails
    refine ⟨j + 1, Nat.succ_lt_succ below, sent, fun i earlier => ?_, fails, ?_, last⟩
    · cases i with
      | zero => exact exchanged.of_ok.1
      | succ i =>
        rw [← Nat.add_assoc k, Nat.add_right_comm k]
        exact before i (by omega)
    · rw [List.length_cons, length]
      omega

end Trace

/-- What is seen of a run of so many exchanges, the first of them at connection `first`. -/
structure Shows (bot : Bot) (backend : Backend) (first total : ℕ) (requests : List Request)
    (result : Except Error Unit) : Prop where
  length_le : requests.length ≤ total
  alternates : ∀ (k : ℕ) (r : Request), requests[k]? = some r → IsRequest bot k r
  ok_iff : result = .ok () ↔
    requests.length = total ∧ ∀ k < total, Answered (backend (first + k))
  first_failure : ∀ e : Error, result = .error e → ∃ k < total, ∃ sent,
    (∀ j < k, Answered (backend (first + j))) ∧
    Exchanged bot k (backend (first + k)) sent (.error e) ∧
    requests.length = k + sent.toList.length ∧ requests[k]? = sent

/-- A trace from its beginning shows all of this. -/
theorem Trace.shows {first total : ℕ} {requests : List Request} {result : Except Error Unit}
    (h : Trace bot backend first 0 total requests result) :
    Shows bot backend first total requests result where
  length_le := h.length_le
  alternates k r found := by
    have request := h.isRequest found
    rwa [Nat.zero_add] at request
  ok_iff := by
    have iff := h.ok_iff
    simp only [Nat.zero_add] at iff
    exact iff
  first_failure e failed := by
    have failure := h.first_failure failed
    simp only [Nat.zero_add] at failure
    exact failure

end Bot

end GuideRig
