/-
# GuideRig.Proofs.Telemetry.Requests -- nothing that a bot is given can split its requests

The head of a request holds three texts that a bot is given: the path and host of the root, the term that
is looked up, and the session. The first two are visible when they get there, because a URL is held in no
other form and a query is escaped; the session stands in a header as it is, so a request whose session
cannot stand there is not built at all (`IsUnsplit`). `perform_unsplit` puts this together for every
sequence of things that a bot can be told to do.
-/

import GuideRig.Proofs.Telemetry.Halves
import GuideRig.Proofs.Url.Read

namespace GuideRig

open Ascii

/-! ## Sessions in a header -/

namespace Session

/-- A character that may stand in no header: a control character of ASCII other than the tab. -/
def IsBarred (c : Char) : Prop := c ≠ '\t' ∧ (c.toNat < 0x20 ∨ c.toNat = 0x7F)

instance (c : Char) : Decidable (IsBarred c) := inferInstanceAs (Decidable (_ ∧ _))

theorem forall_inHeaderValue_ofChar {c : Char} :
    (∀ b ∈ Utf8.ofChar c, Exchange.inHeaderValue b = true) ↔ ¬ IsBarred c := by
  have tab : (byte '\t').toNat = 9 ∧ '\t'.toNat = 9 := ⟨rfl, rfl⟩
  constructor
  · rintro all ⟨other, barred⟩
    -- a barred character is one byte
    obtain ⟨a, form, size, value⟩ : ∃ a, Utf8.ofChar c = [a] ∧ c.toNat < 0x80 ∧ a.toNat = c.toNat := by
      rcases Utf8.ofChar_cases c with one | ⟨_, _, _, size, _⟩ | ⟨_, _, _, _, size, _⟩ |
        ⟨_, _, _, _, _, size, _⟩
      · exact one
      all_goals omega
    have fits := all a (by rw [form]; exact List.mem_singleton_self a)
    rcases Exchange.inHeaderValue_iff.mp fits with rfl | range
    · apply other
      rw [← Char.toNat_inj, tab.2]
      omega
    · omega
  · intro free b hb
    rw [Exchange.inHeaderValue_iff]
    by_cases ascii : b.toNat < 0x80
    · have value := Utf8.toNat_of_mem_ofChar hb ascii
      by_cases here : c = '\t'
      · left
        rw [← UInt8.toNat_inj, ← value, here]
        rfl
      · right
        have range : ¬ (c.toNat < 0x20 ∨ c.toNat = 0x7F) := fun barred => free ⟨here, barred⟩
        omega
    · right
      omega

theorem forall_inHeaderValue_encode {s : String} :
    (∀ b ∈ Utf8.encode s, Exchange.inHeaderValue b = true) ↔ ∀ c ∈ s.toList, ¬ IsBarred c := by
  constructor
  · intro all c listed
    apply forall_inHeaderValue_ofChar.mp
    intro b hb
    exact all b (List.mem_flatMap.mpr ⟨c, listed, hb⟩)
  · intro free b hb
    obtain ⟨c, listed, form⟩ := List.mem_flatMap.mp hb
    exact forall_inHeaderValue_ofChar.mpr (free c listed) b form

/-- The cookie may stand in a header exactly when the session may. -/
theorem forall_inHeaderValue_cookie {session : Session} :
    (∀ b ∈ Utf8.encode session.cookie, Exchange.inHeaderValue b = true) ↔
      ∀ c ∈ session.id.toList, ¬ IsBarred c := by
  have front : (cookieName ++ "=").toList.all (fun c => decide (¬ IsBarred c)) = true := by decide
  rw [forall_inHeaderValue_encode, cookie, String.toList_append]
  constructor
  · intro free c listed
    exact free c (List.mem_append_right _ listed)
  · intro free c listed
    rcases List.mem_append.mp listed with named | own
    · exact of_decide_eq_true (List.all_eq_true.mp front c named)
    · exact free c own

end Session

/-! ## Requests -/

namespace Bot

variable {bot : Bot} {backend : Backend}

/-- A request whose head is read as it is meant: one target, and header values that end where they are
meant to. -/
structure IsUnsplit (bot : Bot) (r : Request) : Prop where
  rooted : r.target.head? = some (byte '/')
  target : ∀ b ∈ r.target, 0x20 < b.toNat ∧ b.toNat < 0x7F ∧ b ≠ byte '#'
  values : ∀ h ∈ r.headers, ∀ b ∈ h.value, b = byte '\t' ∨ 0x20 ≤ b.toNat ∧ b.toNat ≠ 0x7F
  cookie : (r.headers.filter fun h => h.name = "Cookie").map HeaderField.value =
    [Utf8.encode ("wag.session=" ++ bot.session.id)]

/-- The URLs that a bot asks for. -/
inductive IsOwnUrl (bot : Bot) (url : Url) : Prop
  | search {term : String} : bot.searchUrl term = .ok url → IsOwnUrl bot url
  | report : bot.reportUrl = .ok url → IsOwnUrl bot url

/-- What a bot asks for, under a root of the web, is presentable, and so is its query. -/
theorem IsOwnUrl.isPresentable {url : Url} {text : String} (own : bot.IsOwnUrl url)
    (parsed : Url.ofText text = .ok bot.root) (reach : Exchange.isReachable url = true) :
    url.IsPresentable ∧ ∀ q ∈ url.query, ∀ b ∈ q, Url.IsVisible b := by
  have web : url.scheme = Url.http := by
    simp only [Exchange.isReachable, Bool.and_eq_true, beq_iff_eq] at reach
    exact reach.1
  cases own with
  | @search term made =>
    unfold searchUrl at made
    split at made
    · cases made
    rename_i base resolved
    obtain rfl := Except.ok.inj made
    have root : bot.root.scheme = Url.http := by
      rw [eq_of_resolve resolved] at web
      exact web
    have h : base.IsPresentable :=
      (Url.isPresentable_of_ofText parsed root).resolve resolved
        (Url.forall_isVisible_of_all (by decide))
    refine ⟨⟨h.path, h.host⟩, ?_⟩
    rintro q ⟨⟩ b hb
    exact Url.isVisible_of_mem_ofPair hb
  | report made =>
    have root : bot.root.scheme = Url.http := by
      rw [eq_of_resolve made] at web
      exact web
    refine ⟨(Url.isPresentable_of_ofText parsed root).resolve made
      (Url.forall_isVisible_of_all (by decide)), ?_⟩
    rw [eq_of_resolve made]
    rintro q ⟨⟩

/-- A request that can be built for a URL of the bot is not split. -/
theorem isUnsplit_of_build {text : String} {url : Url} {method : Method} {headers : List HeaderField}
    {body : Bytes} {r : Request} (parsed : Url.ofText text = .ok bot.root) (own : bot.IsOwnUrl url)
    (reach : Exchange.isReachable url = true)
    (named : headers = [bot.cookieField] ∨ headers = [jsonField, bot.cookieField])
    (built : Exchange.build method url headers body = .ok r) : bot.IsUnsplit r := by
  obtain ⟨h, query⟩ := own.isPresentable parsed reach
  have made := Exchange.eq_of_build built
  constructor
  · rw [made]
    exact h.head_target
  · intro b hb
    rw [made] at hb
    exact h.isVisible_target query hb
  · intro field listed b hb
    rw [made] at listed
    simp only [List.cons_append, List.mem_cons, List.mem_append] at listed
    rcases listed with rfl | given | framing
    · have visible : Url.IsVisible b := h.host b hb
      exact .inr ⟨by have := visible.1; omega, by have := visible.2.1; omega⟩
    · exact Exchange.inHeaderValue_iff.mp (Exchange.inHeaderValue_of_build built given hb)
    · unfold Exchange.bodyFields at framing
      split at framing
      · cases framing
      · rw [List.mem_singleton.mp framing] at hb
        have visible := Url.isVisible_of_mem_decimal hb
        exact .inr ⟨by have := visible.1; omega, by have := visible.2.1; omega⟩
  · rw [made]
    exact cookie_of_headers named

theorem IsSearch.isUnsplit {text : String} {r : Request} (h : bot.IsSearch r)
    (parsed : Url.ofText text = .ok bot.root) : bot.IsUnsplit r := by
  obtain ⟨term, -, url, made, reach, built⟩ := h
  exact isUnsplit_of_build parsed (.search made) reach (.inl rfl) built

theorem IsReport.isUnsplit {text : String} {events : List Event} {r : Request}
    (h : bot.IsReport events r) (parsed : Url.ofText text = .ok bot.root) : bot.IsUnsplit r := by
  obtain ⟨url, made, reach, built⟩ := h
  exact isUnsplit_of_build parsed (.report made) reach (.inr rfl) built

/-! ## Things to do -/

/-- What a bot can be told to do with one request. -/
inductive Call where
  | makeRequest
  | sendTelemetry (events : List Event)

/-- What a bot can be told to do. -/
inductive Step where
  | call (c : Call)
  | run (clock : ℕ → Instant) (repetitions : ℕ)

/-- Does what a call says. -/
def Call.perform (bot : Bot) (backend : Backend) : Call → Progress → Except Error Unit × Progress
  | makeRequest, p => bot.makeRequest backend p
  | sendTelemetry events, p => bot.sendTelemetry backend events p

/-- The URL that a call asks for, if it comes to asking. -/
def Call.url? (bot : Bot) (p : Progress) : Call → Option Url
  | makeRequest => (bot.term? p.words).1.bind fun term => (bot.searchUrl term).toOption
  | sendTelemetry _ => bot.reportUrl.toOption

/-- Does what a step says. -/
def Step.perform (bot : Bot) (backend : Backend) : Step → Progress → Except Error Unit × Progress
  | call c, p => c.perform bot backend p
  | run clock n, p => bot.run backend clock n p

/-- Does what the steps say, one after the other, whether or not they succeed. -/
def perform (bot : Bot) (backend : Backend) (steps : List Step) (p : Progress) : Progress :=
  steps.foldl (fun p step => (step.perform bot backend p).2) p

/-- What is foreseen of every request for a term and of every report is true of all that a sequence of
steps sends. -/
theorem forall_mem_perform {P : Request → Prop} (search : ∀ p, Sends p (bot.makeRequest backend p) P)
    (report : ∀ events p, Sends p (bot.sendTelemetry backend events p) P) (steps : List Step)
    (p : Progress) : ∀ r ∈ (bot.perform backend steps p).sent, r ∈ p.sent ∨ P r := by
  have one : ∀ step p, ∀ r ∈ (Step.perform bot backend step p).2.sent, r ∈ p.sent ∨ P r := by
    intro step p r hr
    match step with
    | .call .makeRequest => exact (search p).mem hr
    | .call (.sendTelemetry events) => exact (report events p).mem hr
    | .run clock n => exact forall_mem_run search report clock n p r hr
  intro r sent
  induction steps generalizing p with
  | nil => exact .inl sent
  | cons step rest ih =>
    rcases ih _ sent with before | true_of
    · exact one step p r before
    · exact .inr true_of

/-- None of the requests of a sequence of steps is split. -/
theorem isUnsplit_of_perform {text : String} (parsed : Url.ofText text = .ok bot.root)
    (steps : List Step) (p : Progress) :
    ∀ r ∈ (bot.perform backend steps p).sent, r ∈ p.sent ∨ bot.IsUnsplit r :=
  forall_mem_perform (fun p => (bot.sends_makeRequest backend p).mono fun _ h => h.isUnsplit parsed)
    (fun events p => (bot.sends_sendTelemetry backend events p).mono fun _ h => h.isUnsplit parsed)
    steps p

/-! ## Requests that cannot be built -/

namespace Call

/-- A call gives up before a connection is tried, with nothing to search for or over its URL, or is one
exchange; which of the two does not depend on who is asked. -/
theorem perform_cases (c : Call) (bot : Bot) (p : Progress) :
    (∃ e q, (∀ backend, c.perform bot backend p = (.error e, q)) ∧ q.tried = p.tried ∧
      (e = .setup .noQueries ∨ ∃ f, e = .url f)) ∨
    ∃ url ∈ c.url? bot p, ∃ method headers body doneNote q,
      (∀ backend, c.perform bot backend p = exchange q backend method url headers body doneNote) ∧
      q.tried = p.tried ∧ q.sent = p.sent ∧
      (headers = [bot.cookieField] ∨ headers = [jsonField, bot.cookieField]) := by
  cases c with
  | makeRequest =>
    obtain ⟨q, tried, sent, ended⟩ := bot.makeRequest_cases p
    obtain ⟨-, out⟩ | ⟨term, -, drawn, ⟨fault, -, out⟩ | ⟨url, made, out⟩⟩ := ended
    · exact .inl ⟨_, q, out, tried, .inl rfl⟩
    · exact .inl ⟨_, q, out, tried, .inr ⟨fault, rfl⟩⟩
    · refine .inr ⟨url, ?_, _, _, _, _, q, out, tried, sent, .inl rfl⟩
      simp only [url?, drawn, made, Option.bind_some]
      rfl
  | sendTelemetry events =>
    obtain ⟨fault, -, out⟩ | ⟨url, q, made, tried, sent, out⟩ := bot.sendTelemetry_cases events p
    · exact .inl ⟨_, p, out, rfl, .inr ⟨fault, rfl⟩⟩
    · refine .inr ⟨url, ?_, _, _, _, _, q, out, tried, sent, .inr rfl⟩
      simp only [url?, made]
      rfl

/-- With a session that may stand in no header, a call that reaches a connection sends nothing. -/
theorem perform_of_barred {c : Call} {p : Progress} {bytes : Bytes}
    (there : backend p.tried = .reply bytes)
    (reached : (c.perform bot backend p).2.tried = p.tried + 1)
    (barred : ∃ ch ∈ bot.session.id.toList, Session.IsBarred ch) :
    ∃ f, (c.perform bot backend p).1 = .error (.request f) ∧
      (c.perform bot backend p).2.sent = p.sent := by
  rcases c.perform_cases bot p with ⟨e, q, out, tried, -⟩ |
    ⟨url, -, method, headers, body, doneNote, q, out, tried, sent, named⟩
  · rw [out, tried] at reached
    omega
  rw [out] at reached ⊢
  cases reach : Exchange.isReachable url with
  | false =>
    rw [exchange_unsupported reach, tried] at reached
    omega
  | true =>
    cases built : Exchange.build method url headers body with
    | error fault =>
      rw [exchange_unbuilt reach (tried ▸ there) built]
      exact ⟨fault, rfl, sent⟩
    -- the cookie is among the fields, so it would have to fit
    | ok r =>
      have listed : bot.cookieField ∈ headers := by
        rcases named with rfl | rfl
        · exact List.mem_singleton_self _
        · exact List.mem_cons_of_mem _ (List.mem_singleton_self _)
      have free := Session.forall_inHeaderValue_cookie.mp fun b hb =>
        Exchange.inHeaderValue_of_build built listed hb
      obtain ⟨ch, held, bar⟩ := barred
      exact absurd bar (free ch held)

/-- The fields of a call may stand in a header, if the session may. -/
theorem inHeaderValue_of_free {headers : List HeaderField}
    (named : headers = [bot.cookieField] ∨ headers = [jsonField, bot.cookieField])
    (free : ∀ ch ∈ bot.session.id.toList, ¬ Session.IsBarred ch) :
    ∀ h ∈ headers, ∀ b ∈ h.value, Exchange.inHeaderValue b = true := by
  have cookie := Session.forall_inHeaderValue_cookie.mpr free
  rcases named with rfl | rfl
  · rintro h (_ | ⟨_, ⟨⟩⟩)
    exact cookie
  · rintro h (_ | ⟨_, _ | ⟨_, ⟨⟩⟩⟩)
    · exact List.all_eq_true.mp (by decide)
    · exact cookie

/-- With any other session, a call that fails over its request has too long a target. -/
theorem longestTarget_lt {c : Call} {p : Progress} {f : RequestFault}
    (failed : (c.perform bot backend p).1 = .error (.request f))
    (free : ∀ ch ∈ bot.session.id.toList, ¬ Session.IsBarred ch) :
    ∃ url ∈ c.url? bot p, Exchange.longestTarget < url.target.length := by
  rcases c.perform_cases bot p with ⟨e, q, out, -, other⟩ |
    ⟨url, asked, method, headers, body, doneNote, q, out, tried, sent, named⟩
  · rw [out] at failed
    rcases other with rfl | ⟨_, rfl⟩ <;> cases failed
  have task : (⟨method, .ok url, headers, body⟩ : Task).url = .ok url := rfl
  obtain ⟨request, attempt, -⟩ := attempted_exchange task backend q doneNote
  rw [← out, failed] at attempt
  generalize backend q.tried = answer at attempt
  cases attempt with
  | unbuilt made reach unbuilt =>
    obtain rfl := Except.ok.inj made
    exact ⟨_, asked, Exchange.longestTarget_lt_of_build unbuilt (inHeaderValue_of_free named free)⟩

/-- With any other session, a call that reaches a connection sends its request, unless the target is too
long. -/
theorem perform_of_free {c : Call} {p : Progress} {bytes : Bytes}
    (there : backend p.tried = .reply bytes)
    (reached : (c.perform bot backend p).2.tried = p.tried + 1)
    (free : ∀ ch ∈ bot.session.id.toList, ¬ Session.IsBarred ch)
    (short : ∀ url ∈ c.url? bot p, url.target.length ≤ Exchange.longestTarget) :
    ∃ r, (c.perform bot backend p).2.sent = p.sent ++ [r] := by
  rcases c.perform_cases bot p with ⟨e, q, out, tried, -⟩ |
    ⟨url, asked, method, headers, body, doneNote, q, out, tried, sent, named⟩
  · rw [out, tried] at reached
    omega
  rw [out] at reached ⊢
  cases reach : Exchange.isReachable url with
  | false =>
    rw [exchange_unsupported reach, tried] at reached
    omega
  | true =>
    cases built : Exchange.build method url headers body with
    | error fault =>
      have long := Exchange.longestTarget_lt_of_build built (inHeaderValue_of_free named free)
      exact absurd long (Nat.not_lt.mpr (short url asked))
    | ok r =>
      refine ⟨r, ?_⟩
      rw [exchange_built reach (tried ▸ there) built, ← sent]
      cases Exchange.judge method url bytes with
      | error e => rfl
      | ok content => rfl

end Call

/-- For every root that can be read as a URL, and for every session, configuration and backend: no request
of a sequence of steps is split. With a session that holds a control character other than the tab, a call
that reaches a connection fails over its request and sends nothing. With any other session a call fails
over its request only if the target is longer than 65534 bytes, and sends the request if it reaches a
connection with a target that is not. -/
theorem perform_unsplit {text : String} {root : Url} (parsed : Url.ofText text = .ok root)
    (session : Session) (conf : Conf) (window : Duration) (backend : Backend) :
    let bot : Bot := ⟨root, session, conf, window⟩
    (∀ (steps : List Step) (words : Words),
      ∀ r ∈ (bot.perform backend steps (.start words)).sent, bot.IsUnsplit r) ∧
    (∀ (c : Call) (p : Progress) (bytes : Bytes), backend p.tried = .reply bytes →
      (c.perform bot backend p).2.tried = p.tried + 1 →
      (∃ ch ∈ session.id.toList, Session.IsBarred ch) →
      ∃ f, (c.perform bot backend p).1 = .error (.request f) ∧
        (c.perform bot backend p).2.sent = p.sent) ∧
    ((∀ ch ∈ session.id.toList, ¬ Session.IsBarred ch) →
      (∀ (c : Call) (p : Progress) (f : RequestFault),
        (c.perform bot backend p).1 = .error (.request f) →
        ∃ url ∈ c.url? bot p, 65534 < url.target.length) ∧
      ∀ (c : Call) (p : Progress) (bytes : Bytes), backend p.tried = .reply bytes →
        (c.perform bot backend p).2.tried = p.tried + 1 →
        (∀ url ∈ c.url? bot p, url.target.length ≤ 65534) →
        ∃ r, (c.perform bot backend p).2.sent = p.sent ++ [r]) := by
  intro bot
  refine ⟨?_, ?_, ?_⟩
  · intro steps words r sent
    rcases isUnsplit_of_perform parsed steps (.start words) r sent with none | unsplit
    · cases none
    · exact unsplit
  · intro c p bytes there reached barred
    exact Call.perform_of_barred there reached barred
  · intro free
    constructor
    · intro c p f failed
      exact Call.longestTarget_lt failed free
    · intro c p bytes there reached short
      exact Call.perform_of_free there reached free short

/-- A root on this machine, and a session with a line break in it. -/
theorem perform_unsplit_line_break :
    let root : Url := ⟨Url.http, some ⟨[], none, .domain (Ascii.bytes "localhost"), some 3010⟩,
      Ascii.bytes "/", true, none, none⟩
    let bot : Bot := ⟨root, ⟨"abc\r\nX: y"⟩, ⟨["nebo"], .empty⟩, ⟨60, 0⟩⟩
    let backend : Backend := fun _ => .reply []
    let p : Progress := .start (.ofSeed 0)
    Url.ofText "http://localhost:3010" = .ok root ∧
      (∀ (steps : List Step) (words : Words),
        ∀ r ∈ (bot.perform backend steps (.start words)).sent, bot.IsUnsplit r) ∧
      ∃ f, (bot.sendTelemetry backend [] p).1 = .error (.request f) ∧
        (bot.sendTelemetry backend [] p).2.sent = [] := by
  intro root bot backend p
  have parsed : Url.ofText "http://localhost:3010" = .ok root := by decide
  obtain ⟨unsplit, barred, -⟩ := perform_unsplit parsed bot.session bot.conf bot.window backend
  have held : '\n' ∈ bot.session.id.toList ∧ Session.IsBarred '\n' := by decide
  exact ⟨parsed, unsplit, barred (.sendTelemetry []) p [] rfl (by decide) ⟨_, held⟩⟩

end Bot

end GuideRig
