/-
# GuideRig.Telemetry.Bot -- a simulated user

A bot looks a random term up in the guide, reports a batch of events, waits, and begins again; the
first failure ends the run. All that it does is a function of its settings, of the random words, of
the readings of the clock and of what becomes of its connections. `Progress` is what can be seen of
a run so far: the words spent, the connections tried, the requests sent and the log.
-/

import GuideRig.Http.Exchange
import GuideRig.Log
import GuideRig.Session

namespace GuideRig

/-- A simulated user. -/
structure Bot where
  root : Url
  session : Session
  conf : Conf
  /-- The spread of time stamps, and the pause between iterations. -/
  window : Duration

/-- What can be seen of a run so far. -/
structure Progress where
  words : Words
  /-- How many connections have been tried. -/
  tried : Nat
  /-- The requests sent, in order. -/
  sent : List Request
  log : List LogLine

namespace Progress

/-- Before anything is done. -/
def start (words : Words) : Progress := ⟨words, 0, [], []⟩

/-- The progress with one more line in the log. -/
def note (p : Progress) (level : Level) (message : String) : Progress :=
  { p with log := p.log ++ [⟨level, .bot, message⟩] }

/-- The progress after an exchange. -/
def after (p : Progress) (e : Exchange) : Progress :=
  { p with tried := if e.tried then p.tried + 1 else p.tried, sent := p.sent ++ e.sent.toList }

end Progress

namespace Bot

/-! ## Setting up -/

/-- Where terms are looked up, relative to the root. -/
def guideSegment : Bytes := Ascii.bytes "language-guide"

/-- Where events are reported, relative to the root. -/
def telemetrySegment : Bytes := Ascii.bytes "telemetry"

/-- A bot, if it has something to search for and its window ends before the last time stamp. -/
def create (root : Url) (session : Session) (conf : Conf) (window : Duration) (now : Instant) :
    Except SetupFault Bot :=
  if conf.queries.isEmpty then .error .noQueries
  else match Batch.windowEnd (Duration.sinceEpoch now) window with
    | .error f => .error f
    | .ok _ => .ok ⟨root, session, conf, window⟩

/-! ## Requests -/

/-- The field that names the session. -/
def cookieField (bot : Bot) : HeaderField := ⟨"Cookie", Utf8.encode bot.session.cookie⟩

/-- The field that names the form of a report. -/
def jsonField : HeaderField := ⟨"Content-Type", Ascii.bytes "application/json"⟩

/-- The term that a draw stands for. -/
def term? (bot : Bot) (w : Words) : Option String × Words :=
  if bot.conf.queries.isEmpty then (none, w)
  else
    let (i, w) := w.below bot.conf.queries.length
    (bot.conf.queries[i]?, w)

/-- The URL at which a term is looked up. -/
def searchUrl (bot : Bot) (term : String) : Except UrlFault Url :=
  match bot.root.resolve guideSegment with
  | .error f => .error f
  | .ok u => .ok { u with query := some (Query.ofPair "q" term) }

/-- The URL at which events are reported. -/
def reportUrl (bot : Bot) : Except UrlFault Url := bot.root.resolve telemetrySegment

/-- Sends a request and notes that it is done. -/
def exchange (p : Progress) (backend : Backend) (method : Method) (url : Url)
    (headers : List HeaderField) (body : Bytes) (doneNote : String) : Except Error Unit × Progress :=
  let e := Exchange.send method url headers body (backend p.tried)
  let p := p.after e
  match e.outcome with
  | .error f => (.error f, p)
  | .ok _ => (.ok (), p.note .debug doneNote)

/-- Looks a random term up. -/
def makeRequest (bot : Bot) (backend : Backend) (p : Progress) : Except Error Unit × Progress :=
  let (term, words) := bot.term? p.words
  let p := { p with words := words }
  match term with
  | none => (.error (.setup .noQueries), p)
  | some term =>
    match bot.searchUrl term with
    | .error f => (.error (.url f), p)
    | .ok url =>
      exchange (p.note .info ("Making request " ++ url.text)) backend .get url [bot.cookieField] []
        "Request done"

/-- Reports events. -/
def sendTelemetry (bot : Bot) (backend : Backend) (events : List Event) (p : Progress) :
    Except Error Unit × Progress :=
  match bot.reportUrl with
  | .error f => (.error (.url f), p)
  | .ok url =>
    exchange (p.note .info ("Sending telemetry to " ++ url.text)) backend .post url
      [jsonField, bot.cookieField] (Event.writeBatch events) "Telemetry sent"

/-! ## Runs -/

/-- The first half of an iteration: a search under a heading. -/
def search (bot : Bot) (backend : Backend) (heading : String) (p : Progress) :
    Except Error Unit × Progress :=
  bot.makeRequest backend (p.note .info heading)

/-- The second half of an iteration: a batch, its report, and the pause, which is only noted. -/
def report (bot : Bot) (backend : Backend) (now : Instant) (p : Progress) :
    Except Error Unit × Progress :=
  match Batch.generate bot.conf.actions bot.window now p.words with
  | (.error f, words) => (.error (.setup f), { p with words := words })
  | (.ok events, words) =>
    let p := { p with words := words }
    let p := p.note .info ("Generated " ++ toString events.length ++ " telemetry events")
    match bot.sendTelemetry backend events p with
    | (.error e, p) => (.error e, p)
    | (.ok _, p) => (.ok (), p.note .info ("Waiting " ++ bot.window.text ++ "s"))

/-- One iteration. -/
def iteration (bot : Bot) (backend : Backend) (now : Instant) (heading : String) (p : Progress) :
    Except Error Unit × Progress :=
  match bot.search backend heading p with
  | (.error e, p) => (.error e, p)
  | (.ok _, p) => bot.report backend now p

/-- What stands above an iteration in the log. -/
def heading (i total : Nat) : String := "Request " ++ toString i ++ "/" ++ toString total

/-- The iterations from number `i` on, so many of them out of `total`. -/
def iterations (bot : Bot) (backend : Backend) (clock : Nat → Instant) (total : Nat) :
    Nat → Nat → Progress → Except Error Unit × Progress
  | _, 0, p => (.ok (), p)
  | i, left + 1, p =>
    match bot.iteration backend (clock i) (heading i total) p with
    | (.error e, p) => (.error e, p)
    | (.ok _, p) => iterations bot backend clock total (i + 1) left p

/-- A run of so many iterations; `clock i` is the reading in iteration `i`, from 1 on. -/
def run (bot : Bot) (backend : Backend) (clock : Nat → Instant) (repetitions : Nat) (p : Progress) :
    Except Error Unit × Progress :=
  iterations bot backend clock repetitions 1 repetitions p

end Bot

end GuideRig
