/-
# GuideRig.Proofs.Telemetry.Destination -- where the requests of a bot go

Of a root of the web a bot keeps a host and a folder (`Url.IsSite`), and every request goes to one of two
places in that folder (`LooksUp`, `ReportsTo`). User and password, the last segment of the path, query and fragment have
no part in it, so that two roots which differ in nothing else are one root to the service: what can be
seen of the two bots is alike, step by step, but for the URLs in their logs (`alike_perform`). Under a root
that is not of the web nobody is asked for a connection.
-/

import GuideRig.Proofs.Telemetry.Requests
import GuideRig.Proofs.Url.Path

namespace GuideRig

open Ascii

/-! ## Sites -/

namespace Url

/-- A URL of the web with its folder and with its authority, in which a port is a port of its own. -/
structure IsSite (u : Url) (place : Bytes) (a : Authority) : Prop where
  scheme : u.scheme = http
  hasSegments : u.hasSegments = true
  folder : IsFolder u.path place
  authority : u.authority = some a
  port : a.port ≠ some 80
  /-- No user is shown with the host. -/
  unsigned : byte '@' ∉ a.hostPort

/-- Two URLs that differ, if at all, in user and password, in what follows the last slash of the path, in
query and in fragment. -/
structure IsNear (u v : Url) : Prop where
  scheme : u.scheme = v.scheme
  host : u.authority.map Authority.host = v.authority.map Authority.host
  port : u.authority.map Authority.port = v.authority.map Authority.port
  folder : ∃ folder, IsFolder u.path folder ∧ IsFolder v.path folder

/-- Every URL of the web that is read from a text is some site. -/
theorem exists_isSite {text : String} {u : Url} (read : ofText text = .ok u) (web : u.scheme = http) :
    ∃ folder authority, u.IsSite folder authority := by
  have unsigned : byte '@' ∉ u.hostPort := by
    intro signed
    exact absurd (isHostByte_of_mem_hostPort read web signed) (by decide)
  have slash : byte '/' ∈ u.path :=
    List.mem_reverse.mp (isPresentable_of_ofText read web).path.slash_mem
  obtain ⟨_, host, name, password, port, rest, -, own, rfl⟩ := exists_of_http read web
  refine ⟨_, ⟨name, password, host, port⟩, rfl, rfl, isFolder_directory slash, rfl, ?_, unsigned⟩
  rintro rfl
  exact own 80 rfl (by decide)

namespace IsSite

variable {u v : Url} {folder : Bytes} {authority : Authority}

/-- A segment that is looked for in a site is looked for in its folder. -/
theorem resolve_eq (h : u.IsSite folder authority) (segment : Bytes) :
    u.resolve segment = .ok ⟨http, some authority, folder ++ segment, true, none, none⟩ := by
  have remote : isFile u.scheme = false := by
    rw [h.scheme]
    decide
  rw [resolve, if_pos h.hasSegments, folder_eq remote h.folder, h.scheme, h.authority]

/-- A URL that is near a site is a site with the same folder, and is shown with the same host. -/
theorem of_isNear {text : String} (h : u.IsSite folder authority) (read : ofText text = .ok v)
    (near : u.IsNear v) :
    ∃ authority', v.IsSite folder authority' ∧ authority'.hostPort = authority.hostPort := by
  obtain ⟨folder', authority', h'⟩ := exists_isSite read (near.scheme.symm.trans h.scheme)
  have host := near.host
  have port := near.port
  obtain ⟨common, one, other⟩ := near.folder
  rw [h.authority, h'.authority] at host port
  obtain rfl : folder' = folder := by
    rw [← h'.folder.directory_eq, other.directory_eq, ← one.directory_eq, h.folder.directory_eq]
  refine ⟨authority', h', ?_⟩
  rw [Authority.hostPort, Authority.hostPort, Option.some.inj host, Option.some.inj port]

end IsSite

end Url

namespace Bot

variable {bot : Bot} {backend : Backend} {folder : Bytes} {authority : Authority}

/-! ## The two places -/

/-- The target at which a term is looked up in a folder. -/
def searchTarget (folder : Bytes) (term : String) : Bytes :=
  folder ++ bytes "language-guide?q=" ++ Query.encode term

/-- A request looks up in a folder of a host the term that a draw stands for. -/
structure LooksUp (bot : Bot) (folder host : Bytes) (words : Words) (r : Request) : Prop where
  method : r.method = .get
  target : ∃ term, (bot.term? words).1 = some term ∧ r.target = searchTarget folder term
  host : (r.headers.filter fun h => h.name = "Host").map HeaderField.value = [host]

/-- A request reports to a folder of a host. -/
structure ReportsTo (folder host : Bytes) (r : Request) : Prop where
  method : r.method = .post
  target : r.target = folder ++ bytes "telemetry"
  host : (r.headers.filter fun h => h.name = "Host").map HeaderField.value = [host]

/-- The name of the parameter is written as it is. -/
theorem searchTarget_eq (folder : Bytes) (term : String) :
    searchTarget folder term = folder ++ guideSegment ++ byte '?' :: Query.ofPair "q" term := by
  have name : bytes "language-guide?q=" = guideSegment ++ byte '?' :: (Query.encode "q" ++ [byte '=']) := by
    decide
  simp only [searchTarget, Query.ofPair, name, List.append_assoc, List.cons_append, List.nil_append]

theorem searchUrl_eq (site : bot.root.IsSite folder authority) (term : String) :
    bot.searchUrl term = .ok ⟨Url.http, some authority, folder ++ guideSegment, true,
      some (Query.ofPair "q" term), none⟩ := by
  rw [searchUrl, site.resolve_eq]

theorem reportUrl_eq (site : bot.root.IsSite folder authority) :
    bot.reportUrl = .ok ⟨Url.http, some authority, folder ++ telemetrySegment, true, none, none⟩ :=
  site.resolve_eq telemetrySegment

/-- Of the fields of a request only the first is named like the host. -/
theorem host_of_headers {url : Url} {headers : List HeaderField} {body : Bytes}
    (h : headers = [bot.cookieField] ∨ headers = [jsonField, bot.cookieField]) :
    ((Exchange.hostField url :: headers ++ Exchange.bodyFields body).filter
      fun h => h.name = "Host").map HeaderField.value = [url.hostPort] := by
  have framing : (Exchange.bodyFields body).filter (fun h => h.name = "Host") = [] := by
    rw [Exchange.bodyFields]
    split <;> simp
  rcases h with rfl | rfl <;> rw [List.filter_append, framing] <;> rfl

theorem makeRequest_looksUp (site : bot.root.IsSite folder authority) (backend : Backend)
    (p : Progress) :
    Sends p (bot.makeRequest backend p) (bot.LooksUp folder authority.hostPort p.words) := by
  obtain ⟨q, -, sent, ended⟩ := bot.makeRequest_cases p
  obtain ⟨-, out⟩ | ⟨term, -, drawn, ⟨fault, -, out⟩ | ⟨url, made, out⟩⟩ := ended
  · rw [out]
    exact .silent sent
  · rw [out]
    exact .silent sent
  · rw [searchUrl_eq site] at made
    obtain rfl := Except.ok.inj made
    rw [out]
    apply Sends.of_eq _ sent
    refine (sends_exchange ..).mono ?_
    rintro r ⟨-, built⟩
    rw [Exchange.eq_of_build built]
    exact ⟨rfl, ⟨term, drawn, (searchTarget_eq folder term).symm⟩, host_of_headers (.inl rfl)⟩

theorem sendTelemetry_reportsTo (site : bot.root.IsSite folder authority) (backend : Backend)
    (events : List Event) (p : Progress) :
    Sends p (bot.sendTelemetry backend events p) (ReportsTo folder authority.hostPort) := by
  obtain ⟨fault, -, out⟩ | ⟨url, q, made, -, sent, out⟩ := bot.sendTelemetry_cases events p
  · rw [out]
    exact .silent rfl
  · rw [reportUrl_eq site] at made
    obtain rfl := Except.ok.inj made
    rw [out]
    apply Sends.of_eq _ sent
    refine (sends_exchange ..).mono ?_
    rintro r ⟨-, built⟩
    rw [Exchange.eq_of_build built]
    exact ⟨rfl, List.append_nil _, host_of_headers (.inr rfl)⟩

theorem looksUp_or_reportsTo (site : bot.root.IsSite folder authority) (backend : Backend)
    (steps : List Step) (words : Words) : ∀ r ∈ (bot.perform backend steps (.start words)).sent,
      (∃ words', bot.LooksUp folder authority.hostPort words' r) ∨
        ReportsTo folder authority.hostPort r := by
  intro r hr
  let Goes (r : Request) : Prop :=
    (∃ words', bot.LooksUp folder authority.hostPort words' r) ∨ ReportsTo folder authority.hostPort r
  have search (p : Progress) : Sends p (bot.makeRequest backend p) Goes :=
    (makeRequest_looksUp site backend p).mono fun _ h => .inl ⟨p.words, h⟩
  have report (events : List Event) (p : Progress) :
      Sends p (bot.sendTelemetry backend events p) Goes :=
    (sendTelemetry_reportsTo site backend events p).mono fun _ => .inr
  rcases forall_mem_perform search report steps (.start words) r hr with none | goes
  · cases none
  · exact goes

/-! ## Two roots of one site -/

/-- Progress that looks the same from outside, whatever is in the log. -/
structure IsLike (p q : Progress) : Prop where
  words : p.words = q.words
  tried : p.tried = q.tried
  sent : p.sent = q.sent

/-- Outcomes that look the same from outside, whatever is in the log and whichever URL a failure names. -/
structure Alike (out out' : Except Error Unit × Progress) : Prop where
  succeeds : out.1 = .ok () ↔ out'.1 = .ok ()
  progress : IsLike out.2 out'.2

theorem Alike.failed {e e' : Error} {p q : Progress} (h : IsLike p q) :
    Alike (.error e, p) (.error e', q) :=
  ⟨⟨nofun, nofun⟩, h⟩

/-- What follows two outcomes that are alike, and only follows a success, is alike if it is alike after
success. -/
theorem Alike.andThen {out out' : Except Error Unit × Progress}
    {next next' : Progress → Except Error Unit × Progress} :
    Alike out out' → (∀ p q, IsLike p q → Alike (next p) (next' q)) → Alike
      (match out with
        | (.error e, p) => (.error e, p)
        | (.ok _, p) => next p)
      (match out' with
        | (.error e, p) => (.error e, p)
        | (.ok _, p) => next' p) := by
  rintro ⟨succeeds, like⟩ after
  rcases out with ⟨_ | _, p⟩ <;> rcases out' with ⟨_ | _, q⟩
  · exact .failed like
  · cases succeeds.mpr rfl
  · cases succeeds.mp rfl
  · exact after p q like

/-- URLs that are asked for alike are answered alike: of a URL only the target and the host are sent. -/
theorem alike_exchange {p q : Progress} {url url' : Url} (h : IsLike p q)
    (target : url.target = url'.target) (host : url.hostPort = url'.hostPort)
    (reach : Exchange.isReachable url = Exchange.isReachable url') (backend : Backend) (method : Method)
    (headers : List HeaderField) (body : Bytes) (doneNote : String) :
    Alike (exchange p backend method url headers body doneNote)
      (exchange q backend method url' headers body doneNote) := by
  obtain ⟨words, tried, sent⟩ := h
  have same : Exchange.build method url headers body = Exchange.build method url' headers body := by
    simp only [Exchange.build, Exchange.hostField, target, host]
  have next : p.tried + 1 = q.tried + 1 := congrArg (· + 1) tried
  cases reachable : Exchange.isReachable url' with
  | false =>
    rw [exchange_unsupported (reach.trans reachable), exchange_unsupported reachable]
    exact .failed ⟨words, tried, sent⟩
  | true =>
    cases there : backend q.tried with
    | unreachable cause =>
      rw [exchange_unreachable (reach.trans reachable) (tried ▸ there),
        exchange_unreachable reachable there]
      exact .failed ⟨words, next, sent⟩
    | reply bytes =>
      cases built : Exchange.build method url' headers body with
      | error fault =>
        rw [exchange_unbuilt (reach.trans reachable) (tried ▸ there) (same.trans built),
          exchange_unbuilt reachable there built]
        exact .failed ⟨words, next, sent⟩
      | ok r =>
        have left : p.sent ++ [r] = q.sent ++ [r] := congrArg (· ++ [r]) sent
        have verdict : (Exchange.judge method url bytes).toOption =
            (Exchange.judge method url' bytes).toOption := by
          unfold Exchange.judge
          split
          · rfl
          · split <;> rfl
        rw [exchange_built (reach.trans reachable) (tried ▸ there) (same.trans built),
          exchange_built reachable there built]
        cases judged : Exchange.judge method url bytes <;>
        cases judged' : Exchange.judge method url' bytes <;>
        rw [judged, judged'] at verdict
        · exact .failed ⟨words, next, left⟩
        · cases verdict
        · cases verdict
        · exact ⟨Iff.rfl, words, next, left⟩

section Roots

variable {root root' : Url} {session : Session} {conf : Conf} {window : Duration}
  {authority' : Authority} (site : root.IsSite folder authority) (site' : root'.IsSite folder authority')
  (host : authority.hostPort = authority'.hostPort)

include site site' host

theorem alike_makeRequest (backend : Backend) {p q : Progress} (h : IsLike p q) :
    Alike ((⟨root, session, conf, window⟩ : Bot).makeRequest backend p)
      ((⟨root', session, conf, window⟩ : Bot).makeRequest backend q) := by
  -- a term is drawn without a look at the root
  have drawn : (⟨root, session, conf, window⟩ : Bot).term? p.words =
      (⟨root', session, conf, window⟩ : Bot).term? q.words := by
    rw [h.words]
    rfl
  unfold makeRequest
  rw [drawn]
  rcases (⟨root', session, conf, window⟩ : Bot).term? q.words with ⟨_ | term, words⟩
  · exact .failed ⟨rfl, h.tried, h.sent⟩
  · dsimp only
    rw [@searchUrl_eq ⟨root, session, conf, window⟩ _ _ site,
      @searchUrl_eq ⟨root', session, conf, window⟩ _ _ site']
    have like : ∀ lines lines', IsLike ⟨words, p.tried, p.sent, lines⟩
        ⟨words, q.tried, q.sent, lines'⟩ := fun _ _ => ⟨rfl, h.tried, h.sent⟩
    refine alike_exchange (like _ _) ?_ ?_ ?_ ..
    · rfl
    · exact host
    · rfl

theorem alike_sendTelemetry (backend : Backend) (events : List Event) {p q : Progress}
    (h : IsLike p q) :
    Alike ((⟨root, session, conf, window⟩ : Bot).sendTelemetry backend events p)
      ((⟨root', session, conf, window⟩ : Bot).sendTelemetry backend events q) := by
  have like : ∀ lines lines', IsLike { p with log := lines } { q with log := lines' } :=
    fun _ _ => ⟨h.words, h.tried, h.sent⟩
  unfold sendTelemetry
  rw [@reportUrl_eq ⟨root, session, conf, window⟩ _ _ site,
    @reportUrl_eq ⟨root', session, conf, window⟩ _ _ site']
  refine alike_exchange (like _ _) ?_ ?_ ?_ ..
  · rfl
  · exact host
  · rfl

theorem alike_report (backend : Backend) (now : Instant) {p q : Progress} (h : IsLike p q) :
    Alike ((⟨root, session, conf, window⟩ : Bot).report backend now p)
      ((⟨root', session, conf, window⟩ : Bot).report backend now q) := by
  unfold report
  rw [h.words]
  rcases Batch.generate conf.actions window now q.words with ⟨_ | events, words⟩
  · exact .failed ⟨rfl, h.tried, h.sent⟩
  · refine Alike.andThen (alike_sendTelemetry site site' host backend events ?_) ?_
    · exact ⟨rfl, h.tried, h.sent⟩
    · intro p q h
      exact ⟨Iff.rfl, h.words, h.tried, h.sent⟩

theorem alike_iterations (backend : Backend) (clock : ℕ → Instant) (total i left : ℕ)
    {p q : Progress} (h : IsLike p q) :
    Alike ((⟨root, session, conf, window⟩ : Bot).iterations backend clock total i left p)
      ((⟨root', session, conf, window⟩ : Bot).iterations backend clock total i left q) := by
  induction left generalizing i p q with
  | zero => exact ⟨Iff.rfl, h⟩
  | succ left ih =>
    refine Alike.andThen (Alike.andThen ?_ ?_) ?_
    · exact alike_makeRequest site site' host backend ⟨h.words, h.tried, h.sent⟩
    · intro p q h
      exact alike_report site site' host backend (clock i) h
    · intro p q h
      exact ih (i + 1) h

theorem alike_step (backend : Backend) (step : Step) {p q : Progress} (h : IsLike p q) :
    Alike (step.perform ⟨root, session, conf, window⟩ backend p)
      (step.perform ⟨root', session, conf, window⟩ backend q) := by
  match step with
  | .call .makeRequest => exact alike_makeRequest site site' host backend h
  | .call (.sendTelemetry events) => exact alike_sendTelemetry site site' host backend events h
  | .run clock n => exact alike_iterations site site' host backend clock n 1 n h

/-- Two roots with one folder and one host are the same root to whoever is asked. -/
theorem alike_perform (backend : Backend) (steps : List Step) {p q : Progress} (h : IsLike p q) :
    IsLike ((⟨root, session, conf, window⟩ : Bot).perform backend steps p)
      ((⟨root', session, conf, window⟩ : Bot).perform backend steps q) := by
  induction steps generalizing p q with
  | nil => exact h
  | cons step rest ih => exact ih (alike_step site site' host backend step h).progress

end Roots

/-! ## Roots of other kinds -/

/-- A call that nobody is asked a connection for: it fails over its URL, and nothing else has happened. -/
structure FailsOverUrl (p : Progress) (out : Except Error Unit × Progress) : Prop where
  failed : (∃ f, out.1 = .error (.url f)) ∨ ∃ text, out.1 = .error (.unsupportedUrl text)
  tried : out.2.tried = p.tried
  sent : out.2.sent = p.sent

/-- A reference keeps the scheme of its base, and only one scheme can be reached. -/
theorem isReachable_of_resolve {root url : Url} {segment : Bytes} (other : root.scheme ≠ Url.http)
    (resolved : root.resolve segment = .ok url) : Exchange.isReachable url = false := by
  rw [eq_of_resolve resolved, Exchange.isReachable, beq_eq_false_iff_ne.mpr other, Bool.false_and]

theorem failsOverUrl_exchange {p q : Progress} {url : Url} (beyond : Exchange.isReachable url = false)
    (tried : q.tried = p.tried) (sent : q.sent = p.sent) (backend : Backend) (method : Method)
    (headers : List HeaderField) (body : Bytes) (doneNote : String) :
    FailsOverUrl p (exchange q backend method url headers body doneNote) := by
  rw [exchange_unsupported beyond]
  exact ⟨.inr ⟨_, rfl⟩, tried, sent⟩

/-- With a root of another scheme, and something to search for, no call comes to a connection. -/
theorem failsOverUrl_call (other : bot.root.scheme ≠ Url.http) (some_query : bot.conf.queries ≠ [])
    (backend : Backend) (c : Call) (p : Progress) : FailsOverUrl p (c.perform bot backend p) := by
  cases c with
  | makeRequest =>
    obtain ⟨q, tried, sent, ended⟩ := bot.makeRequest_cases p
    obtain ⟨empty, -⟩ | ⟨term, -, -, ⟨fault, -, out⟩ | ⟨url, made, out⟩⟩ := ended
    · exact absurd empty some_query
    · rw [Call.perform, out]
      exact ⟨.inl ⟨fault, rfl⟩, tried, sent⟩
    · rw [Call.perform, out]
      apply failsOverUrl_exchange _ tried sent
      unfold searchUrl at made
      split at made
      · cases made
      · rename_i base resolved
        have beyond : Exchange.isReachable base = false := isReachable_of_resolve other resolved
        rw [← Except.ok.inj made]
        exact beyond
  | sendTelemetry events =>
    obtain ⟨fault, -, out⟩ | ⟨url, q, made, tried, sent, out⟩ := bot.sendTelemetry_cases events p
    · rw [Call.perform, out]
      exact ⟨.inl ⟨fault, rfl⟩, rfl, rfl⟩
    · rw [Call.perform, out]
      exact failsOverUrl_exchange (isReachable_of_resolve other made) tried sent ..

/-- A bot can be set up where there is something to search for and the end of the window has a time
stamp; the root is not looked at. -/
theorem create_eq_ok_iff {root : Url} {session : Session} {conf : Conf} {window : Duration}
    {now : Instant} :
    create root session conf window now = .ok bot ↔
      conf.queries ≠ [] ∧ Batch.millis now window.nanoseconds ≤ Batch.lastStamp ∧
        bot = ⟨root, session, conf, window⟩ := by
  rw [create, Batch.windowEnd_eq]
  by_cases none_query : conf.queries = []
  · rw [if_pos (List.isEmpty_iff.mpr none_query)]
    exact ⟨nofun, fun h => absurd none_query h.1⟩
  · rw [if_neg (mt List.isEmpty_iff.mp none_query)]
    by_cases told : Batch.millis now window.nanoseconds ≤ Batch.lastStamp
    · rw [if_pos told]
      exact ⟨fun made => ⟨none_query, told, (Except.ok.inj made).symm⟩, fun h => h.2.2 ▸ rfl⟩
    · rw [if_neg told]
      exact ⟨nofun, fun h => absurd h.2.1 told⟩

/-- Where the requests go, for every root that can be read as a URL. Under a root of the web there are a
folder, which is its path up to and including the last slash, and a host with a port of its own at most:
whatever a bot is told to do, each of its requests looks up a chosen term in the folder or reports to it,
and names that host, with no user. Another root that differs in nothing but user, password, last segment,
query and fragment leads to the same requests. Under a root of any other scheme every call of every bot
that can be set up fails over its URL, with no connection and no request. -/
theorem perform_addressed {text : String} {root : Url} (parsed : Url.ofText text = .ok root) :
    (root.scheme = Url.http →
      ∃ folder authority, Url.IsFolder root.path folder ∧ root.authority = some authority ∧
        authority.port ≠ some 80 ∧ byte '@' ∉ authority.hostPort ∧
        ∀ (session : Session) (conf : Conf) (window : Duration) (backend : Backend),
          let bot : Bot := ⟨root, session, conf, window⟩
          (∀ p, Sends p (bot.makeRequest backend p) (bot.LooksUp folder authority.hostPort p.words)) ∧
          (∀ events p, Sends p (bot.sendTelemetry backend events p)
            (ReportsTo folder authority.hostPort)) ∧
          ∀ (steps : List Step) (words : Words),
            ∀ r ∈ (bot.perform backend steps (.start words)).sent,
              (∃ words', bot.LooksUp folder authority.hostPort words' r) ∨
                ReportsTo folder authority.hostPort r) ∧
    (root.scheme = Url.http → ∀ (text' : String) (root' : Url), Url.ofText text' = .ok root' →
      root.IsNear root' →
      ∀ (session : Session) (conf : Conf) (window : Duration) (backend : Backend) (steps : List Step)
        (words : Words),
        ((⟨root, session, conf, window⟩ : Bot).perform backend steps (.start words)).sent =
          ((⟨root', session, conf, window⟩ : Bot).perform backend steps (.start words)).sent) ∧
    (root.scheme ≠ Url.http →
      ∀ (session : Session) (conf : Conf) (window : Duration) (now : Instant) (bot : Bot),
        create root session conf window now = .ok bot →
        ∀ (backend : Backend) (c : Call) (p : Progress), FailsOverUrl p (c.perform bot backend p)) := by
  refine ⟨?_, ?_, ?_⟩
  · intro web
    obtain ⟨folder, authority, site⟩ := Url.exists_isSite parsed web
    refine ⟨folder, authority, site.folder, site.authority, site.port, site.unsigned, ?_⟩
    intro session conf window backend bot
    exact ⟨@makeRequest_looksUp bot _ _ site backend, @sendTelemetry_reportsTo bot _ _ site backend,
      @looksUp_or_reportsTo bot _ _ site backend⟩
  · intro web text' root' parsed' near session conf window backend steps words
    obtain ⟨folder, authority, site⟩ := Url.exists_isSite parsed web
    obtain ⟨authority', site', host⟩ := site.of_isNear parsed' near
    exact (alike_perform site site' host.symm backend steps ⟨rfl, rfl, rfl⟩).sent
  · intro other session conf window now bot created backend c p
    obtain ⟨some_query, -, rfl⟩ := create_eq_ok_iff.mp created
    exact @failsOverUrl_call ⟨root, session, conf, window⟩ other some_query backend c p

/-- A root with everything that a URL can have, a plainer one beside it, and one of another scheme. -/
theorem perform_addressed_bracketed :
    let host : Host := .v6 ⟨[0, 0, 0, 0, 0, 0, 0, 1], rfl⟩
    let root : Url := ⟨Url.http, some ⟨bytes "u", some (bytes "p"), host, some 3010⟩,
      bytes "/a/b/c", true, some (bytes "x"), some (bytes "y")⟩
    let plain : Url := ⟨Url.http, some ⟨[], none, host, some 3010⟩, bytes "/a/b/", true, none, none⟩
    let remote : Url := ⟨bytes "ftp", some ⟨[], none, .domain (bytes "h"), none⟩, bytes "/", true,
      none, none⟩
    let session : Session := ⟨"abc"⟩
    let conf : Conf := ⟨["nebo"], .empty⟩
    let window : Duration := ⟨60, 0⟩
    let bot : Bot := ⟨root, session, conf, window⟩
    (Url.ofText "http://u:p@[::1]:3010/a/./b/c?x#y" = .ok root ∧
      ∀ (backend : Backend) (steps : List Step) (words : Words),
        ∀ r ∈ (bot.perform backend steps (.start words)).sent,
          (∃ words', bot.LooksUp (bytes "/a/b/") (bytes "[::1]:3010") words' r) ∨
            ReportsTo (bytes "/a/b/") (bytes "[::1]:3010") r) ∧
    (Url.ofText "http://[::1]:3010/a/b/" = .ok plain ∧
      ∀ (backend : Backend) (steps : List Step) (words : Words),
        (bot.perform backend steps (.start words)).sent =
          ((⟨plain, session, conf, window⟩ : Bot).perform backend steps (.start words)).sent) ∧
    Url.ofText "ftp://h" = .ok remote ∧
      create remote session conf window 0 = .ok ⟨remote, session, conf, window⟩ ∧
      ∀ (backend : Backend) (c : Call) (p : Progress),
        FailsOverUrl p (c.perform ⟨remote, session, conf, window⟩ backend p) := by
  intro host root plain remote session conf window bot
  have parsed : Url.ofText "http://u:p@[::1]:3010/a/./b/c?x#y" = .ok root := by decide
  have parsed_plain : Url.ofText "http://[::1]:3010/a/b/" = .ok plain := by decide
  have parsed_remote : Url.ofText "ftp://h" = .ok remote := by decide
  have created : create remote session conf window 0 = .ok ⟨remote, session, conf, window⟩ :=
    create_eq_ok_iff.mpr ⟨by decide, by decide, rfl⟩
  have folder : Url.IsFolder root.path (bytes "/a/b/") := ⟨by decide, bytes "c", by decide, by decide⟩
  have folder_plain : Url.IsFolder plain.path (bytes "/a/b/") := ⟨by decide, [], by decide, by decide⟩
  have shown : (⟨bytes "u", some (bytes "p"), host, some 3010⟩ : Authority).hostPort =
      bytes "[::1]:3010" := by
    cbv
  obtain ⟨places, nears, -⟩ := perform_addressed parsed
  obtain ⟨folder', authority, is_folder, named, -, -, goes⟩ := places rfl
  obtain rfl := Option.some.inj named
  rw [← is_folder.directory_eq, folder.directory_eq, shown] at goes
  refine ⟨⟨parsed, fun backend => (goes session conf window backend).2.2⟩, ⟨parsed_plain, ?_⟩,
    parsed_remote, created, ?_⟩
  · exact nears rfl _ plain parsed_plain ⟨rfl, rfl, rfl, _, folder, folder_plain⟩ session conf window
  · exact (perform_addressed parsed_remote).2.2 (by decide) session conf window 0 _ created

end Bot

end GuideRig
