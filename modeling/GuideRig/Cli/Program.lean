/-
# GuideRig.Cli.Program -- the three programs

A server of guide pages, a server of one document, and a bot. Each is a function from its arguments,
its setting of the log and its surroundings (files, addresses that can be bound, what becomes of
connections, clock, random words, what happens to a server) to what it prints and the code with
which it ends: 0 for success, 1 after a failure of its work, 2 for arguments that are refused.
-/

import GuideRig.Cli.Command
import GuideRig.Server.Lifecycle
import GuideRig.Telemetry.Bot

namespace GuideRig.Cli

/-! ## What the programs can be told -/

/-- The setting that names a document with the description of a server. -/
def configSetting : Setting :=
  ⟨"config", "TOML server description, replaces the other options", .path, none⟩

/-- The setting of the address to listen on. -/
def listenSetting (standard : String) : Setting :=
  ⟨"listen", "Address to listen on", .address, some standard⟩

/-- The setting of the folder with the pages. -/
def folderSetting : Setting :=
  ⟨"base-path", "Directory containing the fixture files", .path, some ServerConfig.pagesFolder⟩

/-- The argument that names the document. -/
def documentPlace : Place :=
  ⟨"DOC_PATH", "File returned for every request", .path, configSetting.name⟩

/-- A server of guide pages. -/
def pagesCommand : Command :=
  ⟨"fixture-server", [listenSetting ServerConfig.pagesListen, folderSetting, configSetting], none⟩

/-- A server of one document. -/
def documentCommand : Command :=
  ⟨"static-server", [listenSetting ServerConfig.documentListen, configSetting],
    some documentPlace⟩

/-- The setting of the URL that the bot's requests are relative to. -/
def rootSetting : Setting :=
  ⟨"root-url", "Root URL of the middleware", .url, some "http://localhost:3010"⟩

/-- The setting of the number of iterations. -/
def repeatSetting : Setting :=
  ⟨"repeat", "How many times to repeat the request and telemetry cycle", .count, some "10"⟩

/-- The setting of the window in seconds. -/
def durationSetting : Setting :=
  ⟨"telemetry-duration", "Telemetry time window and pause between cycles, in seconds", .count,
    some "2"⟩

/-- The setting of the bot's configuration. -/
def confSetting : Setting :=
  ⟨"telemetry-conf", "JSON file with queries and action counts", .path, some "telebot-conf.json"⟩

/-- The setting of the session. -/
def sessionSetting : Setting :=
  ⟨"session-id", "Session identifier, random when not given", .text, none⟩

/-- A bot. -/
def botCommand : Command :=
  ⟨"telebot", [rootSetting, repeatSetting, durationSetting, confSetting, sessionSetting], none⟩

/-! ## Looking values up -/

/-- The value of a setting, or its standard value. -/
def valueOf (given : Given) (s : Setting) : Option Value :=
  (given.lookup s.name).or (s.standard.bind fun text => (s.kind.read text).toOption)

/-- The address of a setting. -/
def addressOf (given : Given) (s : Setting) : SocketAddress :=
  match valueOf given s with
  | some (.address a) => a
  | _ => .v4 ⟨0, 0, 0, 0⟩ 0

/-- The path of a setting. -/
def pathOf (given : Given) (s : Setting) : String :=
  match valueOf given s with
  | some (.path p) => p
  | _ => ""

/-- The number of a setting. -/
def countOf (given : Given) (s : Setting) : Nat :=
  match valueOf given s with
  | some (.count n) => n
  | _ => 0

/-- A path that may not be given. -/
def pathOf? (given : Given) (name : String) : Option String :=
  match given.lookup name with
  | some (.path p) => some p
  | _ => none

/-! ## Servers -/

/-- Where the description of a server comes from. -/
inductive Plan where
  /-- From a document. -/
  | load (path : String)
  /-- From the other arguments. -/
  | build (config : ServerConfig)
  /-- From nowhere. -/
  | nothing
  deriving DecidableEq, Repr

/-- The plan of a server of guide pages. -/
def pagesPlan (given : Given) : Plan :=
  match pathOf? given configSetting.name with
  | some path => .load path
  | none => .build ⟨addressOf given (listenSetting ServerConfig.pagesListen),
      .pages (pathOf given folderSetting), none⟩

/-- The plan of a server of one document. -/
def documentPlan (given : Given) : Plan :=
  match pathOf? given configSetting.name, pathOf? given documentPlace.name with
  | some path, _ => .load path
  | none, some path =>
    .build ⟨addressOf given (listenSetting ServerConfig.documentListen), .document path, none⟩
  | none, none => .nothing

/-! ## What a program prints -/

/-- What a program prints, and the code with which it ends. -/
structure Outcome where
  exit : Nat
  output : List String
  error : String
  deriving DecidableEq, Repr

namespace Outcome

/-- The outcome where a program does not begin its work. -/
def ofStop (c : Command) : Stop → Outcome
  | .help => ⟨0, c.help, ""⟩
  | .version => ⟨0, [versionText], ""⟩
  | .fault f => ⟨2, [], "error: " ++ f.message⟩

/-- A character of a log line; the ones that control a terminal stand as escapes. -/
def logChar (c : Char) : String :=
  if c = '\x1b' then "\\x1b"
  else if c = '\x07' then "\\x07"
  else if c = '\x08' then "\\x08"
  else if c = '\x0c' then "\\x0c"
  else if c = '\x7f' then "\\x7f"
  else if 0x80 ≤ c.toNat && c.toNat < 0xA0 then "\\u\x7b" ++ Error.hexText c.toNat ++ "\x7d"
  else String.ofList [c]

/-- A log line as it is printed. -/
def logText (l : LogLine) : String :=
  l.level.text ++ " " ++ String.join (l.message.toList.map logChar)

/-- The lines of the log that are shown. -/
def shown (filter : LogFilter) (lines : List LogLine) : List String :=
  (lines.filter filter.shows).map logText

/-- The outcome of a failure. -/
def failed (output : List String) (report : String) : Outcome := ⟨1, output, "Error: " ++ report⟩

end Outcome

/-! ## The programs -/

/-- The description of the server that a plan stands for, or how its failure is reported. -/
def Plan.config (files : Files) : Plan → Except String ServerConfig
  | .load path => match ServerConfig.load files path with
    | .ok c => .ok c
    | .error e => .error e.report
  | .build c => .ok c
  | .nothing => .error (Error.quoted "a document path or --config is required")

/-- The document that a plan is read from, if it is. -/
def Plan.document? : Plan → Option String
  | .load path => some path
  | _ => none

/-- The server that a plan stands for, bound to its address, or how the failure is reported. -/
def Plan.server (plan : Plan) (files : Files) (bind : Bindings) : Except String Server :=
  match plan.config files with
  | .error report => .error report
  | .ok config =>
    match Server.init config bind true with
    | .error e => .error (Error.ioReport e)
    | .ok s => .ok s

/-- Runs a server until the incidents end. -/
def runServer (s : Server) (filter : LogFilter) (incidents : List Incident) : Outcome :=
  let (s, effects) := s.steps (.run :: incidents)
  let output := Outcome.shown filter (Server.logOf effects)
  match s.result? with
  | some (.error e) => .failed output (Error.io e).report
  | _ => ⟨0, output, ""⟩

/-- Serves as a plan says, until the incidents end. -/
def serve (plan : Plan) (filter : LogFilter) (files : Files) (bind : Bindings)
    (incidents : List Incident) : Outcome :=
  match plan.server files bind with
  | .error report => .failed [] report
  | .ok s => runServer s filter incidents

/-- The program of a server. -/
def serverProgram (c : Command) (plan : Given → Plan) (args : List String) (filter : LogFilter)
    (files : Files) (bind : Bindings) (incidents : List Incident) : Outcome :=
  match c.read args with
  | .error stop => .ofStop c stop
  | .ok given => serve (plan given) filter files bind incidents

/-- The session of the bot: the one given, or a random one. -/
def sessionOf (given : Given) (words : Words) : Session × Words :=
  match given.lookup sessionSetting.name with
  | some (.text s) => (⟨s⟩, words)
  | _ => Session.random words

/-- The bot that values describe, and the words left. -/
def botOf (given : Given) (files : Files) (now : Instant) (words : Words) :
    Except Error (Bot × Words) :=
  match Conf.load files (pathOf given confSetting) with
  | .error e => .error e
  | .ok conf =>
    match valueOf given rootSetting with
    | some (.url root) =>
      let (session, words) := sessionOf given words
      let window := { Duration.zero with secs := (countOf given durationSetting).toUInt64 }
      match Bot.create root session conf window now with
      | .error f => .error (.setup f)
      | .ok bot => .ok (bot, words)
    | _ => .error (.url .noBase)

/-- The line with the bot's session. -/
def sessionLine (bot : Bot) : LogLine := ⟨.info, .botProgram, "Session " ++ bot.session.id⟩

/-- The program of the bot. `clock 0` is the reading when the bot is set up. -/
def botProgram (args : List String) (filter : LogFilter) (files : Files) (backend : Backend)
    (clock : Nat → Instant) (words : Words) : Outcome :=
  match botCommand.read args with
  | .error stop => .ofStop botCommand stop
  | .ok given =>
    match botOf given files (clock 0) words with
    | .error e => .failed [] e.report
    | .ok (bot, words) =>
      let (outcome, p) := bot.run backend clock (countOf given repeatSetting) (.start words)
      let output := Outcome.shown filter (sessionLine bot :: p.log)
      match outcome with
      | .ok _ => ⟨0, output, ""⟩
      | .error e => .failed output e.report

end GuideRig.Cli
